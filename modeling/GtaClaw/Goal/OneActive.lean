import GtaClaw.Goal.NoLostUpdate

/-!
# One active goal per session

A replacement is saved before the goal that it replaces is superseded, so between the
two saves a session has two active goals, and the first of them is owed a save. The text
of `set` and `start` says that it gets it: `Replaces` follows them from the listing of the
goals to their end.

This resolves itself as long as the goal is still stored as it was listed. `undisturbed` is
the condition on the schedule: from its listing to its end a replacement is the only one of
its session, and no note is saved there. Without it both goals can stay active.
-/

namespace GtaClaw.Goal

open Lib GtaClaw.Runtime GoalStore
open List hiding after

abbrev GoalTasks := List (GoalOp × GoalProg GoalResult)

def returned : GoalProg GoalResult → Bool
  | .ret _ => true
  | .call .. => false

/-! ## The schedule -/

section Condition

/-- A replacement of the session's goal that has listed the goals and not returned. -/
def replacing (sessionId : SessionId) (task : GoalOp × GoalProg GoalResult) : Bool :=
  match task.2 with
  | .call (.save _) _ => task.1.replaces = some sessionId
  | _ => false

/-- No other task replaces the goal of the session. -/
def alone (tasks : GoalTasks) (i : Nat) (sessionId : SessionId) : Bool :=
  (tasks.eraseIdx i).all fun task => !replacing sessionId task

/-- The store makes the save, or refuses it for its revision. -/
def savesOrConflicts (store : StoreConfig) (s : GoalStore) (record : GoalRecord) : Bool :=
  match s.save store record with
  | .ok _ | .error (.conflict ..) => true
  | .error _ => false

/-- Goals are listed for a replacement, and new goals and notes are saved, while no other
replacement is under way in the session; the saves of a replacement do not fail but for their
revision; and no goal runs out of revisions. -/
def undisturbed (store : StoreConfig) (w : GoalWorld) : GoalAct → Bool
  | .spawn _ => true
  | .run i env =>
    match w.tasks[i]? with
    | some (_, .call (.listForSession sessionId) _) => alone w.tasks i sessionId
    | some (op, .call (.save record) _) =>
      (record.status ≠ .active || alone w.tasks i record.sessionId)
        && (op.replaces.isNone
          || env.fault.isNone && savesOrConflicts store w.shared.store record)
        && (w.shared.writesOf record.goalId).length < u64Max
    | _ => true

end Condition

/-! ## What a replacement does -/

/-- The rest of a replacement whose next call is the save of the new goal: the goal that was
active is superseded after it. -/
def Saves (sessionId : SessionId) (previous : Option GoalRecord) (rest : GoalProg GoalResult) :
    Prop :=
  ∃ record k, rest = .call (.save record) k ∧ record.sessionId = sessionId ∧
    record.status = .active ∧ (∀ e, returned (k (.error e)) = true) ∧
    match previous with
    | none => returned (k (.ok ())) = true
    | some previous => ∃ now k', k (.ok ()) = .call (.save (previous.closed .superseded now)) k' ∧
        ∀ answer, returned (k' answer) = true

/-- A replacement that has not listed the goals yet, or has returned. -/
inductive Replaces (sessionId : SessionId) : GoalProg GoalResult → Prop where
  | done (result : GoalResult) : Replaces sessionId (.ret result)
  | now {k : Timestamp → GoalProg GoalResult} (h : ∀ t, Replaces sessionId (k t)) :
      Replaces sessionId (.call .now k)
  | ordinal {k : Except PortError Nat → GoalProg GoalResult}
      (h : ∀ answer, Replaces sessionId (k answer)) :
      Replaces sessionId (.call (.nextGoalOrdinal sessionId) k)
  | load {goalId : GoalId} {k : Except PortError (Option GoalRecord) → GoalProg GoalResult}
      (h : ∀ answer, Replaces sessionId (k answer)) : Replaces sessionId (.call (.load goalId) k)
  | list {k : Except PortError (List GoalRecord) → GoalProg GoalResult}
      (hfailed : ∀ e, returned (k (.error e)) = true)
      (hlisted : ∀ goals, Saves sessionId (goals.reverse.find? (·.status = .active)) (k (.ok goals))) :
      Replaces sessionId (.call (.listForSession sessionId) k)

theorem Replaces.of_returned {sessionId : SessionId} {rest : GoalProg GoalResult}
    (h : returned rest = true) : Replaces sessionId rest := by
  cases rest with
  | ret result => exact .done result
  | call => cases h

section Text

variable {config : GoalConfig} {sessionId : SessionId}

theorem saves_replace {record : GoalRecord} {previous : Option GoalRecord} {now : Timestamp}
    (hsession : record.sessionId = sessionId) (hactive : record.status = .active) :
    Saves sessionId previous (GoalResult.goal <$> (do
      GoalM.save record
      supersede previous now
      return record : GoalM GoalRecord).run) := by
  refine ⟨record, _, rfl, hsession, hactive, fun e => rfl, ?_⟩
  cases previous with
  | none => rfl
  | some previous =>
    refine ⟨now, _, rfl, fun answer => ?_⟩
    cases answer with
    | ok | error => rfl

theorem replaces_set (goalId : GoalId) (objective : String) :
    Replaces sessionId (GoalResult.goal <$> (set config sessionId goalId objective).run) := by
  unfold set
  cases validateObjective config objective with
  | error e => exact .done _
  | ok objective => exact .now fun now => .list (fun _ => rfl) fun goals => saves_replace rfl rfl

theorem replaces_ordinal {f : Nat → GoalM GoalRecord}
    (h : ∀ ordinal, Replaces sessionId (GoalResult.goal <$> (f ordinal).run)) :
    Replaces sessionId (GoalResult.goal <$> (GoalM.nextGoalOrdinal sessionId >>= f).run) := by
  refine .ordinal fun answer => ?_
  cases answer with
  | error e => exact .done _
  | ok ordinal => exact h ordinal

theorem replaces_load {goalId : GoalId} {f : Option GoalRecord → GoalM GoalRecord}
    (h : ∀ found, Replaces sessionId (GoalResult.goal <$> (f found).run)) :
    Replaces sessionId (GoalResult.goal <$> (GoalM.load goalId >>= f).run) := by
  refine .load fun answer => ?_
  cases answer with
  | error e => exact .done _
  | ok found => exact h found

theorem replaces_start (objective : String) :
    Replaces sessionId (GoalResult.goal <$> (start config sessionId objective).run) := by
  unfold start
  cases validateObjective config objective with
  | error e => exact .done _
  | ok objective =>
    refine replaces_ordinal fun ordinal => ?_
    split
    · exact .done _
    rename_i goalId _
    refine replaces_load fun found => ?_
    cases found with
    | none => exact replaces_set goalId objective
    | some orphan =>
      dsimp only
      split
      · rename_i hequivalent
        unfold GoalRecord.isEquivalentNewGoal at hequivalent
        simp only [Bool.and_eq_true, decide_eq_true_eq] at hequivalent
        exact .list (fun _ => rfl) fun goals =>
          saves_replace hequivalent.1.1.1.1.1.1.1 hequivalent.1.1.1.1.1.2
      · exact replaces_set goalId objective

theorem replaces_body {op : GoalOp} (h : op.replaces = some sessionId) :
    Replaces sessionId (op.body config) := by
  cases op with
  | set _ goalId objective =>
    cases h
    exact replaces_set goalId objective
  | start _ objective =>
    cases h
    exact replaces_start objective
  | recordProgress | close | compactClosedHistory => cases h

end Text

/-- Where a replacement stands. -/
inductive Stage (store : GoalStore) (sessionId : SessionId) : GoalProg GoalResult → Prop where
  | reading {rest : GoalProg GoalResult} (h : Replaces sessionId rest) : Stage store sessionId rest
  /-- The active goal of the session, if there is one, is still the one that was listed. -/
  | listed {rest : GoalProg GoalResult} {previous : Option GoalRecord}
      (h : Saves sessionId previous rest)
      (hlast : ∀ g r, store.load g = some r → r.sessionId = sessionId → r.status = .active →
        previous = some r) : Stage store sessionId rest
  | saved {record : GoalRecord} {k : Except PortError Unit → GoalProg GoalResult}
      (hclosed : record.status ≠ .active) (hend : ∀ answer, returned (k answer) = true) :
      Stage store sessionId (.call (.save record) k)

/-- Every replacement stands somewhere on its way. -/
def Staged (w : GoalWorld) : Prop :=
  ∀ (i : Nat) (op : GoalOp) (rest : GoalProg GoalResult) (sessionId : SessionId),
    w.tasks[i]? = some (op, rest) → op.replaces = some sessionId →
    Stage w.shared.store sessionId rest

/-! ## What is owed -/

/-- The next call of the replacement supersedes the goal as it is stored. -/
def supersedes (stored : GoalRecord) (task : GoalOp × GoalProg GoalResult) : Bool :=
  match task.2 with
  | .call (.save record) _ =>
    task.1.replaces = some stored.sessionId && record.goalId = stored.goalId
      && record.status = .superseded && record.revision = saturatingAdd stored.revision 1
  | _ => false

/-- Some replacement is about to supersede the goal. -/
def superseding (tasks : GoalTasks) (stored : GoalRecord) : Bool := tasks.any (supersedes stored)

/-- All active goals of a session but one are about to be superseded. -/
def Single (w : GoalWorld) : Prop :=
  ∀ sessionId : SessionId, ∃ top : GoalId, ∀ g r, w.shared.store.load g = some r →
    r.sessionId = sessionId → r.status = .active → g ≠ top → superseding w.tasks r = true

/-- The index of a session names goals of the session. -/
def Owned (store : GoalStore) : Prop :=
  ∀ (sessionId : SessionId) (k : String), k ∈ (store.readIndex sessionId).goalIds →
    ∃ r, store.records.lookup k = some r ∧ r.sessionId = sessionId

section Frames

variable {tasks : GoalTasks} {w w' : GoalWorld} {i : Nat} {t t' : GoalOp × GoalProg GoalResult}
  {r : GoalRecord} {sessionId : SessionId}

theorem supersedes_save (h : supersedes r t = true) :
    ∃ record k, t.2 = .call (.save record) k ∧ t.1.replaces = some r.sessionId ∧
      record.goalId = r.goalId ∧ record.status = .superseded ∧
      record.revision = saturatingAdd r.revision 1 := by
  unfold supersedes at h
  split at h
  · rename_i record k hrest
    simp only [Bool.and_eq_true, decide_eq_true_eq] at h
    exact ⟨record, k, hrest, h.1.1.1, h.1.1.2, h.1.2, h.2⟩
  · cases h

theorem replacing_of_supersedes (h : supersedes r t = true) : replacing r.sessionId t = true := by
  obtain ⟨record, k, hrest, hop, -⟩ := supersedes_save h
  unfold replacing
  rw [hrest]
  exact decide_eq_true hop

theorem alone_not_replacing (h : alone tasks i sessionId = true) {j : Nat} (hj : tasks[j]? = some t)
    (hne : j ≠ i) : replacing sessionId t = false := by
  have hnot := all_eq_true.mp h t (mem_eraseIdx_iff_getElem?.mpr ⟨j, hne, hj⟩)
  rwa [Bool.not_eq_true'] at hnot

/-- Nobody else supersedes a goal of a session in which a task is alone. -/
theorem alone_not_superseding (h : alone tasks i r.sessionId = true) (htask : tasks[i]? = some t)
    (hnot : supersedes r t = false) : superseding tasks r = false := by
  by_contra hsuperseding
  obtain ⟨u, hu, hs⟩ := any_eq_true.mp (Bool.not_eq_false _ ▸ hsuperseding)
  obtain ⟨j, hj⟩ := mem_iff_getElem?.mp hu
  by_cases hij : j = i
  · subst hij
    cases htask.symm.trans hj
    cases hnot.symm.trans hs
  · cases (alone_not_replacing h hj hij).symm.trans (replacing_of_supersedes hs)

theorem superseding_set (htask : tasks[i]? = some t) (hnot : supersedes r t = false)
    (h : superseding tasks r = true) : superseding (tasks.set i t') r = true := by
  obtain ⟨u, hu, hs⟩ := any_eq_true.mp h
  obtain ⟨j, hj⟩ := mem_iff_getElem?.mp hu
  have hne : i ≠ j := by
    rintro rfl
    cases htask.symm.trans hj
    cases hnot.symm.trans hs
  exact any_eq_true.mpr ⟨u, mem_of_getElem? ((getElem?_set_ne hne).trans hj), hs⟩

theorem Single.mono (h : Single w)
    (hactive : ∀ g r, w'.shared.store.load g = some r → r.status = .active →
      w.shared.store.load g = some r)
    (howed : ∀ g r, w'.shared.store.load g = some r → r.status = .active →
      superseding w.tasks r = true → superseding w'.tasks r = true) : Single w' := by
  intro sessionId
  obtain ⟨top, htop⟩ := h sessionId
  refine ⟨top, fun g r hload hsession hstatus hne => howed g r hload hstatus ?_⟩
  exact htop g r (hactive g r hload hstatus) hsession hstatus hne

/-- A replacement that waits is not touched by what others do elsewhere. -/
theorem Stage.mono {store store' : GoalStore} (h : Stage store sessionId t.2)
    (hop : t.1.replaces = some sessionId)
    (hactive : replacing sessionId t = true → ∀ g r, store'.load g = some r →
      r.sessionId = sessionId → r.status = .active → store.load g = some r) :
    Stage store' sessionId t.2 := by
  obtain ⟨op, rest⟩ := t
  cases h with
  | reading h => exact .reading h
  | listed hsaves hlast =>
    refine .listed hsaves fun g r hload hsession hstatus => ?_
    obtain ⟨record, k, hrest, -⟩ := hsaves
    have hat : replacing sessionId (op, rest) = true := by
      unfold replacing
      rw [show (op, rest).2 = _ from hrest]
      exact decide_eq_true hop
    exact hlast g r (hactive hat g r hload hsession hstatus) hsession hstatus
  | saved hclosed hend => exact .saved hclosed hend

end Frames

/-! ## Calls -/

theorem compactGoals_active {store : StoreConfig} {keep : Nat} {k : String} {r : GoalRecord}
    (hactive : r.status = .active) : ∀ (goalIds : List String) (done : GoalStore.Compaction),
      (compactGoals store keep goalIds done).2.store.records.lookup k = some r →
      done.store.records.lookup k = some r
  | [], _, h => h
  | goalId :: rest, done, h => by
    unfold compactGoals at h
    split at h
    · exact h
    rename_i record hlookup
    split_ifs at h with hclosed
    · exact compactGoals_active hactive rest done h
    dsimp only at h
    split at h
    · have hnext := compactGoals_active hactive rest _ h
      exact hnext
    split at h
    · exact h
    have hnext := compactGoals_active hactive rest _ h
    rcases Table.lookup_insert_eq_some hnext with ⟨-, rfl⟩ | ⟨-, hold⟩
    · -- what is rewritten is closed
      refine absurd ?_ hclosed
      rw [show record.status = .active from hactive]
      rfl
    · exact hold

theorem compactGoals_owned {store : StoreConfig} {keep : Nat} :
    ∀ (goalIds : List String) (done : GoalStore.Compaction), Owned done.store →
      Owned (compactGoals store keep goalIds done).2.store
  | [], _, h => h
  | goalId :: rest, done, h => by
    unfold compactGoals
    split
    · exact h
    rename_i record hlookup
    split
    · exact compactGoals_owned rest done h
    dsimp only
    split
    · exact compactGoals_owned rest _ h
    split
    · exact h
    refine compactGoals_owned rest _ fun sessionId k hk => ?_
    obtain ⟨r, hr, hsession⟩ := h sessionId k hk
    by_cases hkey : k = goalId
    · subst hkey
      cases hlookup.symm.trans hr
      exact ⟨_, AList.lookup_insert _, hsession⟩
    · exact ⟨r, (AList.lookup_insert_ne hkey).trans hr, hsession⟩

section Save

variable {config : GoalConfig} {store : StoreConfig} {s : Shared} {op : GoalOp}
  {r stored : GoalRecord}

theorem Shared.Valid.lookup_write (h : s.Valid) (r : GoalRecord) (k : String) :
    (s.store.write r).records.lookup k
      = if k = r.goalId.asStr then some r else s.store.records.lookup k := by
  unfold GoalStore.write
  rw [h.adopts_none]
  dsimp only
  rw [if_neg Bool.false_ne_true]
  split
  · rename_i heq
    rw [heq]
    exact AList.lookup_insert _
  · rename_i hne
    exact AList.lookup_insert_ne hne

theorem Shared.Valid.load_write (h : s.Valid) (r : GoalRecord) (g : GoalId) :
    (s.store.write r).load g = if g = r.goalId then some r else s.store.load g := by
  unfold load
  rw [h.lookup_write]
  exact if_congr ⟨Identifier.ext, congrArg _⟩ rfl rfl

/-- A successor of the stored version is not refused for its revision. -/
theorem Shared.Valid.made (h : s.Valid) (hload : s.store.load r.goalId = some stored)
    (hrevision : r.revision = saturatingAdd stored.revision 1)
    (hsaves : savesOrConflicts store s.store r = true) : ∃ after, s.store.save store r = .ok after := by
  have hexpected : s.store.expectedRevision r.goalId = r.revision := by
    unfold expectedRevision
    rw [hload, hrevision]
  unfold savesOrConflicts at hsaves
  split at hsaves
  · rename_i after hok
    exact ⟨after, hok⟩
  · rename_i expected held hconflict
    unfold GoalStore.save at hconflict
    split at hconflict
    · cases hconflict
    · rw [hexpected, h.adopts_none] at hconflict
      simp only [ne_eq, not_true_eq_false, decide_false, Bool.and_false, Bool.false_eq_true,
        if_false] at hconflict
      split at hconflict
      · cases hconflict
      · cases hconflict
  · cases hsaves

/-- A write stays in the session of its goal, and makes none active that was not. -/
theorem Offer.stored_session (hoffer : Offer config s op r) (h : s.Valid)
    (hn : (s.writesOf r.goalId).length < u64Max)
    (haccept : r.revision = s.store.expectedRevision r.goalId)
    (hload : s.store.load r.goalId = some stored) :
    stored.sessionId = r.sessionId ∧ (r.status = .active → stored.status = .active) := by
  have hexpected := h.expected hn
  -- the goal has a version, so revision 1 is not expected
  have hpos : 0 < (s.writesOf r.goalId).length := by
    rw [length_pos_iff]
    intro hnil
    rw [h.last, hnil] at hload
    cases hload
  -- a version whose successor is accepted is the stored one
  have hcurrent : ∀ r', s.Seen r' → r'.goalId = r.goalId →
      saturatingAdd r'.revision 1 = r.revision → r' = stored := by
    intro r' hseen hgoal hrevision
    obtain ⟨w, hlast, rfl⟩ := h.current hseen (hgoal ▸ hn) (by rw [hrevision, hgoal, haccept])
    rw [hgoal] at hlast
    rw [h.last, hlast] at hload
    exact Option.some.inj hload
  cases hoffer with
  | fresh hop goalId objective now =>
    have hone : 1 = (s.writesOf goalId).length + 1 := haccept.trans hexpected
    change 0 < (s.writesOf goalId).length at hpos
    omega
  | again hop hseen => exact absurd haccept (Nat.ne_of_lt (h.seen_lt hseen hn))
  | @close _ r hop hseen status hclosed now =>
    cases hcurrent r hseen rfl rfl
    refine ⟨rfl, fun hactive => ?_⟩
    rw [show status = .active from hactive] at hclosed
    cases hclosed
  | @note r text note hseen now =>
    obtain ⟨hgoal, hsession, hstatus, hrevision⟩ :=
      progressed_frame r note config.maxProgressEntries now
    cases hcurrent r hseen hgoal.symm hrevision.symm
    exact ⟨hsession.symm, hstatus.symm.trans⟩

/-- Only a replacement saves a new goal. -/
theorem Offer.replaces_of_unstored (hoffer : Offer config s op r) (h : s.Valid)
    (hn : (s.writesOf r.goalId).length < u64Max)
    (haccept : r.revision = s.store.expectedRevision r.goalId)
    (hload : s.store.load r.goalId = none) (hactive : r.status = .active) :
    op.replaces = some r.sessionId := by
  cases hoffer with
  | fresh hop => exact hop
  | again hop hseen => exact absurd haccept (Nat.ne_of_lt (h.seen_lt hseen hn))
  | close hop hseen status hclosed =>
    rw [show status = .active from hactive] at hclosed
    cases hclosed
  | @note r text note hseen now =>
    obtain ⟨hgoal, -, -, hrevision⟩ := progressed_frame r note config.maxProgressEntries now
    rw [hgoal] at hn haccept hload
    obtain ⟨w, hlast, -⟩ := h.current hseen hn (hrevision.symm.trans haccept)
    rw [h.last, hlast] at hload
    cases hload

theorem Shared.save_made {i : Nat} {after : GoalStore} (h : s.store.save store r = .ok after) :
    s.save store i op none r = (.ok (), s.record i op after [r]) := by
  unfold Shared.save
  rw [h]

theorem Owned.write (hs : s.Valid) (h : Owned s.store)
    (hsame : ∀ stored, s.store.load r.goalId = some stored → stored.sessionId = r.sessionId) :
    Owned (s.store.write r) := by
  intro sessionId k hk
  rw [hs.lookup_write]
  rw [readIndex_write] at hk
  have hold : k ∈ (s.store.readIndex sessionId).goalIds →
      ∃ found, (if k = r.goalId.asStr then some r else s.store.records.lookup k) = some found ∧
        found.sessionId = sessionId := by
    intro hk
    obtain ⟨stored, hstored, rfl⟩ := h sessionId k hk
    split
    · rename_i heq
      rw [heq] at hstored
      exact ⟨r, rfl, (hsame stored hstored).symm⟩
    · exact ⟨stored, hstored, rfl⟩
  split at hk
  · rename_i hnew
    rcases mem_append.mp hk with hk | hk
    · exact hold hk
    · rw [if_pos (mem_singleton.mp hk)]
      exact ⟨r, rfl, hnew.2.symm⟩
  · exact hold hk

end Save

/-! ## Steps -/

section Steps

variable {config : GoalConfig} {store : StoreConfig} {w : GoalWorld} {i : Nat} {op : GoalOp}
  {env : GoalEnv} {k : Except PortError Unit → GoalProg GoalResult} {record : GoalRecord}
  {answer : Except PortError Unit}

theorem undisturbed_save (htask : w.tasks[i]? = some (op, .call (.save record) k))
    (h : undisturbed store w (.run i env) = true) :
    (record.status = .active → alone w.tasks i record.sessionId = true) ∧
      (∀ sessionId, op.replaces = some sessionId →
        env.fault = none ∧ savesOrConflicts store w.shared.store record = true) ∧
      (w.shared.writesOf record.goalId).length < u64Max := by
  unfold undisturbed at h
  dsimp only at h
  rw [htask] at h
  simp only [Bool.and_eq_true, Bool.or_eq_true, decide_eq_true_eq, Option.isNone_iff_eq_none] at h
  obtain ⟨⟨hactive, hfault⟩, hn⟩ := h
  refine ⟨fun hstatus => hactive.resolve_left (not_not.mpr hstatus), fun sessionId hop => ?_, hn⟩
  rw [hop] at hfault
  exact hfault.resolve_left (by simp)

theorem Single.refused (hw : w.shared.Valid) (h : Single w) {e : PortError}
    (htask : w.tasks[i]? = some (op, .call (.save record) k))
    (hsave : w.shared.save store i op env.fault record = (.error e, w.shared))
    (hok : undisturbed store w (.run i env) = true) :
    Single ⟨w.shared, w.tasks.set i (op, k (.error e))⟩ := by
  refine h.mono (fun _ _ hload _ => hload) fun g r hload hactive howed => ?_
  refine superseding_set htask ?_ howed
  by_contra hsupersedes
  obtain ⟨_, _, hcall, hop, hgoal, -, hrevision⟩ :=
    supersedes_save (Bool.not_eq_false _ ▸ hsupersedes)
  cases hcall
  -- this is the save that the goal is owed, and it carries the revision that is expected
  obtain rfl : r.goalId = g := (Shared.Seen.of_load hw hload).2
  rw [← hgoal] at hload
  obtain ⟨hfault, hsaves⟩ := (undisturbed_save htask hok).2.1 _ hop
  obtain ⟨after, hafter⟩ := hw.made hload hrevision hsaves
  rw [hfault, Shared.save_made hafter] at hsave
  cases hsave

/-- A goal that is not the one saved is superseded next if it was. -/
theorem superseding_other (hw : w.shared.Valid)
    (htask : w.tasks[i]? = some (op, .call (.save record) k)) {g : GoalId} {r : GoalRecord}
    (hr : w.shared.store.load g = some r) (hne : g ≠ record.goalId) :
    superseding w.tasks r = true → superseding (w.tasks.set i (op, k answer)) r = true := by
  refine superseding_set htask ?_
  by_contra hsupersedes
  obtain ⟨_, _, hcall, -, hgoal, -⟩ := supersedes_save (Bool.not_eq_false _ ▸ hsupersedes)
  cases hcall
  exact hne ((Shared.Seen.of_load hw hr).2.symm.trans hgoal.symm)

theorem Single.saved (hw : w.shared.Valid) (h : Single w) (hstaged : Staged w) {after : GoalStore}
    (htask : w.tasks[i]? = some (op, .call (.save record) k))
    (hsave : w.shared.save store i op env.fault record
      = (answer, w.shared.record i op after [record]))
    (haccepted : w.shared.store.save store record = .ok after)
    (hoffer : Offer config w.shared op record) (hok : undisturbed store w (.run i env) = true) :
    Single ⟨w.shared.record i op after [record], w.tasks.set i (op, k answer)⟩ := by
  obtain ⟨rfl, hrevision⟩ := save_eq_ok haccepted
  have haccept := hrevision (hw.adopts_none record)
  have hload : ∀ g, (w.shared.record i op (w.shared.store.write record) [record]).store.load g
      = if g = record.goalId then some record else w.shared.store.load g :=
    hw.load_write record
  intro sessionId
  obtain ⟨top, htop⟩ := h sessionId
  by_cases hwritten : record.sessionId = sessionId ∧ record.status = .active
  swap
  · -- the record that was written is none of the active goals of the session
    refine ⟨top, fun g r hr hsession hactive hne => ?_⟩
    rw [hload] at hr
    split_ifs at hr with hg
    · cases hr
      exact absurd ⟨hsession, hactive⟩ hwritten
    · exact superseding_other hw htask hr hg (htop g r hr hsession hactive hne)
  obtain ⟨rfl, hactive⟩ := hwritten
  obtain ⟨halone, hfault, hn⟩ := undisturbed_save htask hok
  cases hstored : w.shared.store.load record.goalId with
  | none =>
    -- a replacement: the goal that was active is superseded next
    have hop := hoffer.replaces_of_unstored hw hn haccept hstored hactive
    refine ⟨record.goalId, fun g r hr hsession hstatus hne => ?_⟩
    rw [hload, if_neg hne] at hr
    rw [(hfault _ hop).1, Shared.save_made haccepted] at hsave
    cases hsave
    cases hstaged i op _ _ htask hop with
    | reading h => cases h
    | saved hclosed hend => exact absurd hactive hclosed
    | listed hsaves hlast =>
      obtain ⟨_, _, hcall, -, -, -, hnext⟩ := hsaves
      cases hcall
      rw [hlast g r hr hsession hstatus] at hnext
      obtain ⟨now, k', hk, -⟩ := hnext
      refine any_eq_true.mpr ⟨_, mem_of_getElem? (getElem?_set_self ?_), ?_⟩
      · exact (List.getElem?_eq_some_iff.mp htask).1
      · rw [hk]
        simp [supersedes, hop, hsession, GoalRecord.closed]
  | some stored =>
    -- a note: the goal is the one that is owed nothing, and stays so
    obtain ⟨hsame, hwas⟩ := hoffer.stored_session hw hn haccept hstored
    have hfree : superseding w.tasks stored = false := by
      refine alone_not_superseding (hsame ▸ halone hactive) htask ?_
      simp [supersedes, hactive]
    have htopgoal : record.goalId = top := by
      by_contra hne
      cases hfree.symm.trans (htop _ stored hstored hsame (hwas hactive) hne)
    refine ⟨top, fun g r hr hsession hstatus hne => ?_⟩
    have hg : g ≠ record.goalId := fun heq => hne (heq.trans htopgoal)
    rw [hload, if_neg hg] at hr
    exact superseding_other hw htask hr hg (htop g r hr hsession hstatus hne)

/-- A task moves and leaves the active goals as they are; it was to supersede none. -/
theorem Single.frame (h : Single w) {rest rest' : GoalProg GoalResult} {s' : Shared}
    (htask : w.tasks[i]? = some (op, rest)) (hnot : ∀ r, supersedes r (op, rest) = false)
    (hactive : ∀ g r, s'.store.load g = some r → r.status = .active →
      w.shared.store.load g = some r) : Single ⟨s', w.tasks.set i (op, rest')⟩ :=
  h.mono hactive fun _ r _ _ howed => superseding_set htask (hnot r) howed

/-- A goal that is active after a call was so before, or was saved by it. -/
theorem exec_active (hw : w.shared.Valid) {c : GoalCall} {g : GoalId} {r : GoalRecord}
    (hload : (Shared.exec store i op w.shared env c).2.store.load g = some r)
    (hactive : r.status = .active) : w.shared.store.load g = some r ∨ c = .save r := by
  rcases exec_cases store i op w.shared env c with
    hsame | ⟨after, written, hrecord, ⟨record, rfl, hsave, -⟩ | ⟨sessionId, keep, goals, rfl, rfl, -⟩⟩
  · rw [hsame] at hload
    exact .inl hload
  · rw [hrecord] at hload
    obtain ⟨rfl, -⟩ := save_eq_ok hsave
    change (w.shared.store.write record).load g = some r at hload
    rw [hw.load_write] at hload
    split at hload
    · exact .inr (congrArg GoalCall.save (Option.some.inj hload))
    · exact .inl hload
  · rw [hrecord] at hload
    exact .inl (compactGoals_active hactive _ _ hload)

theorem Single.run (hw : Pool.Holds (goalSpec config) (Shared.exec store) w) (h : Single w)
    (hstaged : Staged w) {c : GoalCall} {k : c.Answer → GoalProg GoalResult}
    (htask : w.tasks[i]? = some (op, .call c k)) (hok : undisturbed store w (.run i env) = true) :
    Single ⟨(Shared.exec store i op w.shared env c).2,
      w.tasks.set i (op, k (Shared.exec store i op w.shared env c).1)⟩ := by
  cases c with
  | now | nextGoalOrdinal | load | listForSession | compactClosedHistory =>
    refine h.frame htask (fun _ => rfl) fun g r hload hactive => ?_
    exact (exec_active hw.valid hload hactive).resolve_right (by simp)
  | save record =>
    have hoffer := (hw.may (goal_sound config store) htask).2
    change Single ⟨(w.shared.save store i op env.fault record).2,
      w.tasks.set i (op, k (w.shared.save store i op env.fault record).1)⟩
    rcases save_cases store i op w.shared env.fault record with
      ⟨e, hsave⟩ | ⟨after, answer, haccepted, hsave⟩
    · rw [hsave]
      exact h.refused hw.valid htask hsave hok
    · rw [hsave]
      exact h.saved hw.valid hstaged htask hsave haccepted hoffer hok

/-- The goal that a replacement finds is the only one of its session that is active. -/
theorem Single.listed (hw : w.shared.Valid) (h : Single w) (howned : Owned w.shared.store)
    {sessionId : SessionId} (hfree : ∀ r, r.sessionId = sessionId → superseding w.tasks r = false)
    {goals : List GoalRecord} (hlist : w.shared.store.listForSession store sessionId = .ok goals)
    {g : GoalId} {r : GoalRecord} (hload : w.shared.store.load g = some r)
    (hsession : r.sessionId = sessionId) (hactive : r.status = .active) :
    goals.reverse.find? (·.status = .active) = some r := by
  obtain ⟨top, htop⟩ := h sessionId
  have honly : ∀ g r, w.shared.store.load g = some r → r.sessionId = sessionId →
      r.status = .active → g = top := by
    intro g r hload hsession hactive
    by_contra hne
    cases (hfree r hsession).symm.trans (htop g r hload hsession hactive hne)
  have hmem : r ∈ goals := (mem_listGoals hlist).mpr ⟨_, hsession ▸ hw.indexed _ r hload, hload⟩
  cases hfind : goals.reverse.find? (·.status = .active) with
  | none =>
    have hnone := find?_eq_none.mp hfind r (mem_reverse.mpr hmem)
    exact absurd (decide_eq_true hactive) hnone
  | some found =>
    obtain ⟨k, hk, hlookup⟩ := (mem_listGoals hlist).mp (mem_reverse.mp (mem_of_find?_eq_some hfind))
    obtain ⟨_, hsame, hfound⟩ := howned sessionId k hk
    cases hlookup.symm.trans hsame
    have hloaded : w.shared.store.load found.goalId = some found := by
      unfold load
      rw [hw.keyed k found hlookup]
      exact hlookup
    have hstatus := find?_some hfind
    rw [honly _ _ hloaded hfound (of_decide_eq_true hstatus), ← honly g r hload hsession hactive,
      hload] at hloaded
    exact hloaded.symm

/-- **One step of a replacement.** -/
theorem Stage.step (hw : w.shared.Valid) (hsingle : Single w) (howned : Owned w.shared.store)
    {c : GoalCall} {k : c.Answer → GoalProg GoalResult}
    (htask : w.tasks[i]? = some (op, .call c k)) (hok : undisturbed store w (.run i env) = true)
    {sessionId : SessionId} (h : Stage w.shared.store sessionId (.call c k)) :
    Stage (Shared.exec store i op w.shared env c).2.store sessionId
      (k (Shared.exec store i op w.shared env c).1) := by
  have hdone : ∀ {rest : GoalProg GoalResult} {s : GoalStore}, returned rest = true →
      Stage s sessionId rest := fun hreturned => .reading (.of_returned hreturned)
  cases h with
  | reading h =>
    cases h with
    | now h | ordinal h | load h => exact .reading (h _)
    | list hfailed hlisted =>
      have halone : alone w.tasks i sessionId = true := by
        unfold undisturbed at hok
        dsimp only at hok
        rw [htask] at hok
        exact hok
      dsimp only [Shared.exec, Shared.read]
      split
      · exact hdone (hfailed _)
      · exact hdone (hfailed _)
      · rename_i goals _ hlist
        refine .listed (hlisted goals) fun g r hload hsession hactive => ?_
        refine hsingle.listed hw howned (fun r hr => ?_) hlist hload hsession hactive
        exact alone_not_superseding (hr ▸ halone) htask rfl
  | @listed _ previous hsaves hlast =>
    obtain ⟨record, k, hcall, -, -, hfailed, hnext⟩ := hsaves
    cases hcall
    cases hanswer : (Shared.exec store i op w.shared env (.save record)).1 with
    | error e => exact hdone (hfailed e)
    | ok =>
      cases previous with
      | none => exact hdone hnext
      | some previous =>
        obtain ⟨now, k', hk, hend⟩ := hnext
        rw [hk]
        exact .saved (by simp [GoalRecord.closed]) hend
  | saved hclosed hend => exact hdone (hend _)

theorem Staged.run (hw : w.shared.Valid) (hsingle : Single w) (howned : Owned w.shared.store)
    (h : Staged w) {c : GoalCall} {k : c.Answer → GoalProg GoalResult}
    (htask : w.tasks[i]? = some (op, .call c k)) (hok : undisturbed store w (.run i env) = true) :
    Staged ⟨(Shared.exec store i op w.shared env c).2,
      w.tasks.set i (op, k (Shared.exec store i op w.shared env c).1)⟩ := by
  intro j op' rest sessionId hj hop
  obtain ⟨hlt, -⟩ := List.getElem?_eq_some_iff.mp htask
  by_cases hij : j = i
  · subst hij
    cases (getElem?_set_self hlt).symm.trans hj
    exact (h j op _ sessionId htask hop).step hw hsingle howned htask hok
  · have hj' := (getElem?_set_ne fun heq => hij heq.symm).symm.trans hj
    refine (h j op' rest sessionId hj' hop).mono (t := (op', rest)) hop
      fun hreplacing g r hload hsession hactive => ?_
    refine (exec_active hw hload hactive).resolve_right ?_
    rintro rfl
    -- the new goal or note would be saved while the other is under way
    have halone := (undisturbed_save htask hok).1 hactive
    rw [hsession] at halone
    cases (alone_not_replacing halone hj' hij).symm.trans hreplacing

theorem Owned.run (hw : Pool.Holds (goalSpec config) (Shared.exec store) w)
    (h : Owned w.shared.store) {c : GoalCall} {k : c.Answer → GoalProg GoalResult}
    (htask : w.tasks[i]? = some (op, .call c k)) (hok : undisturbed store w (.run i env) = true) :
    Owned (Shared.exec store i op w.shared env c).2.store := by
  have hmay := hw.may (goal_sound config store) htask
  rcases exec_cases store i op w.shared env c with
    hsame | ⟨after, written, hrecord, ⟨record, rfl, hsave, -⟩ | ⟨sessionId, keep, goals, rfl, rfl, -⟩⟩
  · rw [hsame]
    exact h
  · rw [hrecord]
    obtain ⟨rfl, hrevision⟩ := save_eq_ok hsave
    refine h.write hw.valid fun stored hstored => ?_
    exact (Offer.stored_session hmay.2 hw.valid (undisturbed_save htask hok).2.2
      (hrevision (hw.valid.adopts_none record)) hstored).1
  · rw [hrecord]
    exact compactGoals_owned _ _ h

/-- What every step keeps while no replacement is disturbed. -/
structure Undisturbed (config : GoalConfig) (store : StoreConfig) (w : GoalWorld) : Prop where
  holds : Pool.Holds (goalSpec config) (Shared.exec store) w
  single : Single w
  staged : Staged w
  owned : Owned w.shared.store

/-- **One step.** -/
theorem Undisturbed.act (h : Undisturbed config store w) {a : GoalAct}
    (hok : undisturbed store w a = true) :
    Undisturbed config store (w.act (GoalOp.body config) (Shared.exec store) a) := by
  have hholds := h.holds.act (goal_sound config store) a
  cases a with
  | spawn op =>
    refine ⟨hholds, ?_, fun i op' rest sessionId hi hop => ?_, h.owned⟩
    · refine h.single.mono (fun _ _ hload _ => hload) fun g r _ _ howed => ?_
      obtain ⟨t, ht, hs⟩ := any_eq_true.mp howed
      exact any_eq_true.mpr ⟨t, mem_append_left _ ht, hs⟩
    · rcases getElem?_concat_some hi with hold | ⟨-, heq⟩
      · exact h.staged i op' rest sessionId hold hop
      · cases heq
        exact .reading (replaces_body hop)
  | run i env =>
    change Undisturbed config store (w.run (Shared.exec store) i env)
    change Pool.Holds _ _ (w.run (Shared.exec store) i env) at hholds
    unfold Pool.run at hholds ⊢
    split at hholds
    · rename_i op c k htask
      exact ⟨hholds, h.single.run h.holds h.staged htask hok,
        h.staged.run h.holds.valid h.single h.owned htask hok, h.owned.run h.holds htask hok⟩
    · exact h

end Steps

def Quiet (w : GoalWorld) : Prop := ∀ task ∈ w.tasks, returned task.2 = true

instance (w : GoalWorld) : Decidable (Quiet w) :=
  inferInstanceAs (Decidable (∀ task ∈ w.tasks, returned task.2 = true))

/-- **One active goal**: whenever all operations have returned, a session has at most one
active goal, if no replacement was disturbed. -/
theorem one_active_goal (config : GoalConfig) (store : StoreConfig) (acts : List GoalAct)
    (w : GoalWorld) (hw : w = after (GoalWorld.step config store) .new acts)
    (hrun : Along (GoalWorld.step config store) (fun w a => undisturbed store w a = true) .new acts)
    (hquiet : Quiet w) {g g' : GoalId} {r r' : GoalRecord} (hload : w.shared.store.load g = some r)
    (hload' : w.shared.store.load g' = some r') (hsession : r.sessionId = r'.sessionId)
    (hactive : r.status = .active) (hactive' : r'.status = .active) : g = g' := by
  have hnew : Undisturbed config store .new :=
    ⟨goal_holds config store [], fun _ => ⟨shipGoal, fun g r hload => by cases hload⟩,
      fun i op rest sessionId hi => by simp [GoalWorld.new] at hi,
      fun sessionId k hk => by simp [GoalWorld.new, empty, readIndex] at hk⟩
  have h := after_inv (I := Undisturbed config store) (fun w a h hok => h.act hok) acts GoalWorld.new
    hnew hrun
  rw [← hw] at h
  obtain ⟨top, htop⟩ := h.single r'.sessionId
  -- nothing is owed, so every active goal of the session is that one
  have htop_eq : ∀ g r, w.shared.store.load g = some r → r.sessionId = r'.sessionId →
      r.status = .active → g = top := by
    intro g r hload hsession hactive
    by_contra hne
    obtain ⟨task, htask, hsupersedes⟩ := any_eq_true.mp (htop g r hload hsession hactive hne)
    obtain ⟨record, k, hrest, -⟩ := supersedes_save hsupersedes
    have hreturned := hquiet task htask
    rw [hrest] at hreturned
    cases hreturned
  exact (htop_eq g r hload hsession hactive).trans (htop_eq g' r' hload' rfl hactive').symm

/-! ## Goals that stay active -/

section Concrete

def landGoal : GoalId := ⟨"d:goal-2", by decide +kernel⟩

/-- The goal is replaced, and nothing happens in between. -/
def replacedRun : List GoalAct :=
  shipRun ++ [.spawn (.set shipSession landGoal "land"), .run 1 atEpoch, .run 1 atEpoch,
    .run 1 atEpoch, .run 1 atEpoch]

/-- A note on the goal is recorded between the two saves of its replacement. -/
def notedReplacementRun : List GoalAct :=
  shipRun ++ [.spawn (.set shipSession landGoal "land"), .run 1 atEpoch, .run 1 atEpoch,
    .run 1 atEpoch, .spawn (.recordProgress shipGoal "left"), .run 2 atEpoch, .run 2 atEpoch,
    .run 2 atEpoch, .run 1 atEpoch]

/-- Two goals are set at once. -/
def twiceSetRun : List GoalAct :=
  [.spawn (.set shipSession shipGoal "ship"), .spawn (.set shipSession landGoal "land"),
    .run 0 atEpoch, .run 1 atEpoch, .run 0 atEpoch, .run 1 atEpoch, .run 0 atEpoch, .run 1 atEpoch]

/-- The status of a goal of the session. -/
def statusIn (w : GoalWorld) (sessionId : SessionId) (goalId : GoalId) : Option GoalStatus :=
  ((w.shared.store.load goalId).filter (·.sessionId = sessionId)).map (·.status)

theorem one_active_goal_replaced :
    statusIn (after (GoalWorld.step default freeStore) .new replacedRun) shipSession landGoal
      = some .active ∧
    statusIn (after (GoalWorld.step default freeStore) .new replacedRun) shipSession shipGoal
      ≠ some .active := by
  have hland : statusIn (after (GoalWorld.step default freeStore) .new replacedRun) shipSession
      landGoal = some .active := by decide +kernel
  refine ⟨hland, fun hship => ?_⟩
  obtain ⟨r, hr, hactive⟩ := Option.map_eq_some_iff.mp hland
  obtain ⟨r', hr', hactive'⟩ := Option.map_eq_some_iff.mp hship
  obtain ⟨hload, hsession⟩ := Option.filter_eq_some_iff.mp hr
  obtain ⟨hload', hsession'⟩ := Option.filter_eq_some_iff.mp hr'
  have hsame := one_active_goal default freeStore replacedRun _ rfl (by decide +kernel)
    (by decide +kernel) hload hload'
    ((of_decide_eq_true hsession).trans (of_decide_eq_true hsession').symm) hactive hactive'
  exact absurd hsame (by decide +kernel)

/-- Every operation has returned, and both goals are active. -/
abbrev LeavesTwo (acts : List GoalAct) : Prop :=
  let w := after (GoalWorld.step default freeStore) .new acts
  Quiet w ∧ statusIn w shipSession shipGoal = some .active ∧
    statusIn w shipSession landGoal = some .active

def succeeded : GoalProg GoalResult → Bool
  | .ret (.goal (.ok _)) => true
  | _ => false

/-- Two goals stay active, also where every operation has succeeded. -/
theorem two_goals_stay_active :
    (LeavesTwo twiceSetRun ∧ ∀ task ∈ (after (GoalWorld.step default freeStore) .new
      twiceSetRun).tasks, succeeded task.2 = true) ∧ LeavesTwo notedReplacementRun := by
  decide +kernel

end Concrete

end GtaClaw.Goal
