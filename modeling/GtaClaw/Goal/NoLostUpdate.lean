import GtaClaw.Goal.Clients

/-!
# No progress note is lost

The count of a goal is the number of its accepted notes, in every interleaving of any
number of clients and of compaction, and its revision is the number of its accepted
writes. This ends where the revision saturates: from then on the store accepts writes
that do not carry a new revision.
-/

namespace GtaClaw.Goal

open Lib GtaClaw.Runtime GoalWorld GoalStore Shared Prog List

namespace Shared

/-- The clients whose notes on the goal were accepted. -/
def notesOf (s : Shared) (goalId : GoalId) : List Nat :=
  ((s.writesOf goalId).filter (·.op.isNote)).map (·.task)

/-- The live entries of the goal and those that were compacted. -/
def storedCount (s : Shared) (goalId : GoalId) : Nat := (s.store.load goalId).elim 0 (·.counted)

variable {s : Shared} {g : GoalId}

theorem Valid.storedCount (h : s.Valid) (hn : (s.writesOf g).length ≤ u64Max) :
    s.storedCount g = (s.notesOf g).length := by
  unfold Shared.storedCount notesOf
  rw [h.last g, length_map, ← countP_eq_length_filter]
  cases hlast : (s.writesOf g).getLast? with
  | none =>
    rw [getLast?_eq_none_iff.mp hlast]
    rfl
  | some w => exact h.counted g w hn hlast

theorem Valid.notes_nodup (h : s.Valid) (g : GoalId) : (s.notesOf g).Nodup := by
  refine h.distinct.sublist (List.Sublist.map _ ?_)
  unfold writesOf
  rw [filter_comm]
  exact filter_sublist

end Shared

/-! ## Whose writes they are -/

/-- Every write was made by the task that it names. -/
def Attributed (w : GoalWorld) : Prop :=
  ∀ x ∈ w.shared.writes, ∃ rest, w.tasks[x.task]? = some (x.op, rest)

theorem attributed_run {config : GoalConfig} {store : StoreConfig} {w : GoalWorld}
    (h : Attributed w) (a : GoalAct) : Attributed (w.act (GoalOp.body config) (exec store) a) := by
  cases a with
  | spawn op =>
    intro x hx
    obtain ⟨rest, hrest⟩ := h x hx
    obtain ⟨hlt, -⟩ := List.getElem?_eq_some_iff.mp hrest
    exact ⟨rest, (getElem?_append_left hlt).trans hrest⟩
  | run i env =>
    change Attributed (w.run (exec store) i env)
    unfold Pool.run
    split
    · rename_i op c k htask
      obtain ⟨hlt, -⟩ := List.getElem?_eq_some_iff.mp htask
      -- the task of a write keeps what it was started for
      have hstays : ∀ (j : Nat) (op' : GoalOp) (rest : GoalProg GoalResult),
          w.tasks[j]? = some (op', rest) → ∃ rest',
          (w.tasks.set i (op, k (exec store i op w.shared env c).1))[j]?
            = some (op', rest') := by
        intro j op' rest hj
        by_cases hij : i = j
        · subst hij
          cases htask.symm.trans hj
          exact ⟨_, getElem?_set_self hlt⟩
        · exact ⟨rest, (getElem?_set_ne hij).trans hj⟩
      intro x hx
      rcases exec_cases store i op w.shared env c with hsame | ⟨after, written, hrecord, -⟩
      · dsimp only at hx
        rw [hsame] at hx
        obtain ⟨rest, hrest⟩ := h x hx
        exact hstays x.task x.op rest hrest
      · dsimp only at hx
        rw [hrecord] at hx
        rcases mem_append.mp hx with hold | hnew
        · obtain ⟨rest, hrest⟩ := h x hold
          exact hstays x.task x.op rest hrest
        · obtain ⟨r, -, rfl⟩ := mem_map.mp hnew
          exact hstays i op _ htask
    · exact h

section Runs

variable {config : GoalConfig} {store : StoreConfig} {acts : List GoalAct} {w : GoalWorld}

theorem noted_returned (h : Pool.Holds (goalSpec config) (exec store) w)
    (hattributed : Attributed w) {i : Nat} {g : GoalId} (hi : i ∈ w.shared.notesOf g) :
    ∃ note result, w.tasks[i]? = some (.recordProgress g note, .ret (.goal result)) ∧
      ((∃ r, result = .ok r) ∨ ∃ error, result = .error (.port error)) := by
  obtain ⟨x, hx, rfl⟩ := mem_map.mp hi
  obtain ⟨hof, hnote⟩ := mem_filter.mp hx
  obtain ⟨hwrites, hgoal⟩ := mem_filter.mp hof
  have hown : x ∈ w.shared.ownWrites x.task := mem_filter.mpr ⟨hwrites, decide_eq_true rfl⟩
  obtain ⟨rest, htask⟩ := hattributed x hwrites
  have hsafe := h.safe x.task x.op rest htask
  cases rest with
  | call c k =>
    have hidle := (hsafe w.shared h.valid (.refl _ _)).1.1 hnote
    rw [hidle] at hown
    exact absurd hown not_mem_nil
  | ret result =>
    have hpost := hsafe w.shared h.valid (.refl _ _)
    cases hop : x.op with
    | recordProgress g' note =>
      rw [hop] at hpost htask
      cases result with
      | compacted _ => exact hpost.elim
      | goal result =>
        have hg : ∀ r, w.shared.ownWrites x.task = [⟨x.task, .recordProgress g' note, r⟩] →
            r.goalId = g' → g' = g := by
          intro r hone hr
          rw [hone, mem_singleton] at hown
          rw [← hr, ← of_decide_eq_true hgoal, hown]
        cases result with
        | ok r =>
          cases hg r hpost.1 hpost.2
          exact ⟨note, _, htask, .inl ⟨r, rfl⟩⟩
        | error e =>
          rcases hpost with hnone | ⟨error, r, rfl, hone, hr⟩
          · rw [hnone] at hown
            exact absurd hown not_mem_nil
          · cases hg r hone hr
            exact ⟨note, _, htask, .inr ⟨error, rfl⟩⟩
    | _ =>
      rw [hop] at hnote
      cases hnote

end Runs

/-- **No update is lost.** In every interleaving of clients and compaction, as long as a
goal has had no more writes than a revision can count: the revision of the goal is the
number of its accepted writes, and each of them carried one more than the one before; its
count is the number of clients whose note was accepted, no client is among them twice, every
client that was told so is, and the others of them were told of a failure of the store. -/
theorem progress_counted_once (config : GoalConfig) (store : StoreConfig) (acts : List GoalAct)
    (w : GoalWorld) (hw : w = after (GoalWorld.step config store) .new acts) (g : GoalId)
    (hn : (w.shared.writesOf g).length ≤ u64Max) :
    w.shared.storedRevision g = (w.shared.writesOf g).length
      ∧ (∀ (k : Nat) (x : Write), (w.shared.writesOf g)[k]? = some x → x.record.revision = k + 1)
      ∧ w.shared.storedCount g = (w.shared.notesOf g).length
      ∧ (w.shared.notesOf g).Nodup
      ∧ (∀ (i : Nat) (note : String) (r : GoalRecord),
        w.tasks[i]? = some (.recordProgress g note, .ret (.goal (.ok r))) → i ∈ w.shared.notesOf g)
      ∧ ∀ i ∈ w.shared.notesOf g, ∃ note result,
        w.tasks[i]? = some (.recordProgress g note, .ret (.goal result)) ∧
          ((∃ r, result = .ok r) ∨ ∃ error, result = .error (.port error)) := by
  have h : Pool.Holds (goalSpec config) (Shared.exec store) w := hw ▸ goal_holds config store acts
  have hattributed : Attributed w := by
    rw [hw]
    exact after_inv (I := Attributed) (fun _ a h _ => attributed_run h a) acts _
      (fun _ hx => absurd hx not_mem_nil) (along_true acts _)
  refine ⟨h.valid.storedRevision hn, fun k x hx => ?_, h.valid.storedCount hn, h.valid.notes_nodup g,
    fun i note r htask => ?_, fun i => noted_returned h hattributed⟩
  · obtain ⟨hlt, -⟩ := List.getElem?_eq_some_iff.mp hx
    exact h.valid.revision g k x hx (by omega)
  · obtain ⟨hown, hgoal⟩ := h.safe i _ _ htask w.shared h.valid (.refl _ _)
    have hmem : (⟨i, .recordProgress g note, r⟩ : Write) ∈ w.shared.ownWrites i := by
      rw [hown]
      exact mem_singleton.mpr rfl
    refine mem_map.mpr ⟨⟨i, .recordProgress g note, r⟩, mem_filter.mpr ⟨?_, rfl⟩, rfl⟩
    exact mem_filter.mpr ⟨(mem_filter.mp hmem).1, decide_eq_true hgoal⟩

/-! ## Where revisions end -/

section Concrete

/-- A store whose records take no space. -/
abbrev freeStore : StoreConfig := ⟨default, id, fun _ => .ok 0⟩

def shipGoal : GoalId := ⟨"d:goal-1", by decide +kernel⟩

def shipSession : SessionId := ⟨"d", by decide +kernel⟩

def atEpoch : GoalEnv := ⟨⟨0⟩, none⟩

def shipRun : List GoalAct :=
  [.spawn (.set shipSession shipGoal "ship"), .run 0 atEpoch, .run 0 atEpoch, .run 0 atEpoch]

/-- Two clients read the goal and record a note; the second to save is refused. -/
def notedRun : List GoalAct :=
  shipRun ++ [.spawn (.recordProgress shipGoal "left"), .spawn (.recordProgress shipGoal "right"),
    .run 1 atEpoch, .run 2 atEpoch, .run 1 atEpoch, .run 2 atEpoch, .run 2 atEpoch, .run 1 atEpoch]

theorem progress_counted_once_two :
    (after (GoalWorld.step default freeStore) .new notedRun).shared.notesOf shipGoal = [2]
      ∧ (after (GoalWorld.step default freeStore) .new notedRun).shared.storedCount shipGoal = 1 := by
  have hnotes : (after (GoalWorld.step default freeStore) .new notedRun).shared.notesOf shipGoal
      = [2] := by decide +kernel
  obtain ⟨-, -, hcount, -⟩ := progress_counted_once default freeStore notedRun _ rfl shipGoal
    (by decide +kernel)
  rw [hnotes] at hcount
  exact ⟨hnotes, hcount⟩

variable {s : Shared} {i : Nat} {op : GoalOp} {g : GoalId} {r : GoalRecord}

theorem free_usage (store : GoalStore) (index : SessionIndex) :
    (store.usageOfIndex freeStore index).bytes = 0 := by
  have hbytes : ∀ goalId, store.recordBytes freeStore goalId = 0 := by
    intro goalId
    unfold recordBytes
    split
    · rfl
    · rfl
  unfold usageOfIndex
  induction index.goalIds with
  | nil => rfl
  | cons goalId rest ih =>
    rw [foldl_cons, hbytes]
    exact ih

theorem free_save {r' : GoalRecord} (h : s.Valid) (hload : s.store.load r.goalId = some r)
    (hgoal : r'.goalId = r.goalId) (hsession : r'.sessionId = r.sessionId)
    (hrevision : r'.revision = saturatingAdd r.revision 1) :
    s.store.save freeStore r' = .ok (s.store.write r') := by
  have hnew : s.store.isNew r' = false := by
    unfold GoalStore.isNew
    rw [hgoal, hsession]
    exact decide_eq_false (not_not.mpr (h.indexed _ r hload))
  have hexpected : s.store.expectedRevision r'.goalId = r'.revision := by
    unfold GoalStore.expectedRevision
    rw [hgoal, hload, hrevision]
  have hheld : (s.store.usageOfIndex freeStore (s.store.readIndex r'.sessionId)).bytes
      - s.store.recordBytes freeStore r'.goalId.asStr = 0 := by
    rw [free_usage, Nat.zero_sub]
  have hroom : ∀ goals bytes, bytes = 0 →
      (default : GoalBudget).admitRecord ⟨goals, bytes⟩ 0 false = .ok ⟨goals, 0⟩ := by
    rintro goals bytes rfl
    rfl
  unfold GoalStore.save
  dsimp only
  rw [hexpected, if_neg (by simp), hnew, if_neg Bool.false_ne_true, hroom _ _ hheld]

/-- What a note on an active goal calls, if nothing fails. -/
theorem recordProgress_calls (g : GoalId) (hactive : r.status = .active) : ∃ k₁ k₂ k₃,
    GoalOp.body default (.recordProgress g "step") = .call (.load g) k₁ ∧
      k₁ (.ok (some r)) = .call .now k₂ ∧
      k₂ ⟨0⟩ = .call (.save (r.progressed "step" 32 ⟨0⟩)) k₃ := by
  obtain ⟨goalId, sessionId, objective, status⟩ := r
  cases hactive
  exact ⟨_, _, _, rfl, rfl, rfl⟩

theorem note_round {w : GoalWorld} (h : w.shared.Valid) (hload : w.shared.store.load r.goalId = some r)
    (hactive : r.status = .active) : ∃ more,
      (after (GoalWorld.step default freeStore) w more).shared
        = w.shared.record w.tasks.length (.recordProgress r.goalId "step")
          (w.shared.store.write (r.progressed "step" 32 ⟨0⟩)) [r.progressed "step" 32 ⟨0⟩] := by
  obtain ⟨hgoal, hsession, -, hrevision⟩ := progressed_frame r "step" 32 ⟨0⟩
  obtain ⟨k₁, k₂, k₃, h₁, h₂, h₃⟩ := recordProgress_calls r.goalId hactive
  generalize GoalOp.recordProgress r.goalId "step" = op at h₁ ⊢
  have hload' : exec freeStore w.tasks.length op w.shared atEpoch (.load r.goalId)
      = (.ok (some r), w.shared) := by
    rw [exec, hload]
    rfl
  have hsave : exec freeStore w.tasks.length op w.shared atEpoch
      (.save (r.progressed "step" 32 ⟨0⟩)) = (.ok (), w.shared.record w.tasks.length op
        (w.shared.store.write (r.progressed "step" 32 ⟨0⟩)) [r.progressed "step" 32 ⟨0⟩]) := by
    dsimp only [exec, Shared.save]
    rw [free_save h hload hgoal hsession hrevision]
    rfl
  let spawned : GoalWorld := ⟨w.shared, w.tasks ++ [(op, op.body default)]⟩
  have hlt : w.tasks.length < spawned.tasks.length := by simp [spawned]
  have hfirst := Pool.run_call (p := spawned) (getElem?_concat_length.trans (by rw [h₁])) hload'
  have hnow : exec freeStore w.tasks.length op w.shared atEpoch .now = (⟨0⟩, w.shared) := rfl
  refine ⟨[.spawn op, .run w.tasks.length atEpoch, .run w.tasks.length atEpoch,
    .run w.tasks.length atEpoch], ?_⟩
  change (Pool.run (exec freeStore) (Pool.run (exec freeStore)
    (Pool.run (exec freeStore) spawned _ _) _ _) _ _).shared = _
  rw [hfirst, h₂, Pool.run_call (p := ⟨w.shared, _⟩) (getElem?_set_self hlt) hnow, h₃, set_set,
    Pool.run_call (p := ⟨w.shared, _⟩) (getElem?_set_self hlt) hsave]

theorem goal_advances (acts : List GoalAct)
    (hload : (after (step default freeStore) .new acts).shared.store.load g = some r)
    (hactive : r.status = .active) :
    ∃ more r', (after (step default freeStore) .new more).shared.store.load g = some r'
      ∧ r'.status = .active ∧ r'.revision = saturatingAdd r.revision 1
      ∧ ((after (step default freeStore) .new more).shared.writesOf g).length
        = ((after (step default freeStore) .new acts).shared.writesOf g).length + 1 := by
  have h := (goal_holds default freeStore acts).valid
  obtain rfl : r.goalId = g := (Shared.Seen.of_load h hload).2
  obtain ⟨more, hmore⟩ := note_round h hload hactive
  obtain ⟨hgoal, -, hstatus, hrevision⟩ := progressed_frame r "step" 32 ⟨0⟩
  refine ⟨acts ++ more, r.progressed "step" 32 ⟨0⟩, ?_, hstatus.trans hactive, hrevision, ?_⟩
  · rw [after_append, hmore, ← hgoal]
    unfold write
    rw [h.adopts_none]
    exact AList.lookup_insert _
  · rw [after_append, hmore]
    change (writesOf ⟨_, _ ++ [_]⟩ r.goalId).length = _
    rw [writesOf_append, if_pos hgoal, length_append]
    rfl

theorem goal_written (n : Nat) : ∃ acts r,
    (after (step default freeStore) .new acts).shared.store.load shipGoal = some r
      ∧ r.status = .active
      ∧ ((after (step default freeStore) .new acts).shared.writesOf shipGoal).length
        = n + 1 := by
  induction n with
  | zero =>
    exact ⟨shipRun, .fresh shipGoal shipSession "ship" ⟨0⟩, by decide +kernel, rfl, by decide +kernel⟩
  | succ n ih =>
    obtain ⟨acts, r, hload, hactive, hlength⟩ := ih
    obtain ⟨more, r', hload', hactive', -, hlength'⟩ := goal_advances acts hload hactive
    exact ⟨more, r', hload', hactive', hlength'.trans (congrArg (· + 1) hlength)⟩

/-- After `u64::MAX` writes the next one is accepted with the revision that is stored. -/
theorem revision_saturates : ∃ acts,
    ((after (GoalWorld.step default freeStore) .new acts).shared.writesOf shipGoal).length
        = u64Max + 1
      ∧ (after (GoalWorld.step default freeStore) .new acts).shared.storedRevision shipGoal
        = u64Max := by
  obtain ⟨acts, r, hload, hactive, hlength⟩ := goal_written (u64Max - 1)
  have hmax : u64Max - 1 + 1 = u64Max := by decide
  rw [hmax] at hlength
  have hrevision := (goal_holds default freeStore acts).valid.storedRevision hlength.le
  rw [hlength, Shared.storedRevision, hload] at hrevision
  obtain ⟨more, r', hload', -, hsaturated, hlength'⟩ := goal_advances acts hload hactive
  refine ⟨more, hlength'.trans (congrArg (· + 1) hlength), ?_⟩
  rw [Shared.storedRevision, hload']
  change r'.revision = u64Max
  rw [hsaturated, show r.revision = u64Max from hrevision]
  exact Nat.min_eq_right (Nat.le_succ _)

end Concrete

end GtaClaw.Goal
