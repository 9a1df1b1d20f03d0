import GtaClaw.Goal.Recovery
import GtaClaw.Lib.Strings

/-!
# Whatever a crash leaves, opening the store repairs

A run is a sequence of saves and openings, each of which may stop after any number of
file operations. Whatever it leaves holds a coherent store, so opening it succeeds: each
index lists the goals of its session, those that it listed before first and in their
order; the next ordinal is one that no goal of the session has; and opening it again
repairs nothing.

This asks two things of the records that are saved. They must be such that they can be
read back, since a record that cannot makes every later opening fail; and a goal must
stay in its session, since its first session would go on listing it.
-/

namespace GtaClaw.Goal.FileStore

open Lib GtaClaw.Runtime GoalStore
open List hiding after

/-! ## What can be observed -/

section Observe

variable {Text : Type} (config : FileConfig Text) (order : List FileName → List FileName)

/-- The record of a goal, read from disk. -/
def loadOn (d : Disk Text) (goalId : GoalId) : Except StoreError (Option GoalRecord) :=
  ((readRecordSized config (recordPathFor config goalId.asStr)).run.runAll (exec config order) d).1.map
    (·.map (·.1))

/-- The index of a session, read from disk. -/
def indexOn (d : Disk Text) (sessionId : SessionId) : Except StoreError StoredIndex :=
  ((readIndex config sessionId).run.runAll (exec config order) d).1

/-- The next ordinal of a session, from disk. -/
def ordinalOn (d : Disk Text) (sessionId : SessionId) : Except StoreError Nat :=
  ((nextGoalOrdinal config sessionId).run.runAll (exec config order) d).1

variable (known : Set String)

/-- A record that can be read back is saved under known identifiers, and its goal stays in its
session. -/
def Allowed (d : Disk Text) : DiskAct → Prop
  | .save record _ => (record.goalId.asStr ∈ known ∧ record.sessionId.asStr ∈ known) ∧
    record.WellFormed ∧ ∀ stored, loadOn config order d record.goalId = .ok (some stored) →
      stored.sessionId = record.sessionId
  | .start .. => True

/-- What opening the store has made of a session. -/
structure Recovered (past : List (DiskAct × DiskAnswer)) (d d' : Disk Text) (s : SessionId)
    (old new : StoredIndex) : Prop where
  before : indexOn config order d s = .ok old
  after : indexOn config order d' s = .ok new
  once : new.goalIds.Nodup
  exactly : ∀ k, k ∈ new.goalIds ↔ k ∈ known ∧
    ∃ g r, g.asStr = k ∧ loadOn config order d' g = .ok (some r) ∧ r.sessionId = s
  inOrder : old.goalIds <+: new.goalIds
  acknowledged : ∀ record, (.save record none, .saved (.ok ())) ∈ past → record.sessionId = s →
    record.goalId.asStr ∈ old.goalIds
  mark : ∀ g r n, g.asStr ∈ known → loadOn config order d' g = .ok (some r) → r.sessionId = s →
    generatedGoalOrdinal s.asStr g.asStr = some n → n ≤ new.goalIdHighWater

end Observe

/-! ## Generated identifiers -/

theorem parseU64_toDigits {n : Nat} (hn : n ≤ u64Max) : parseU64 (Nat.toDigits 10 n) = some n := by
  have hdigit : ∀ c ∈ Nat.toDigits 10 n, c.isDigit = true :=
    fun c hc => Nat.isDigit_of_mem_toDigits (by decide) (by decide) hc
  have hvalue : (Nat.toDigits 10 n).foldl (fun n c => 10 * n + (c.toNat - '0'.toNat)) 0 = n :=
    Nat.ofDigitChars_toDigits (by decide) (by decide)
  have hempty : (Nat.toDigits 10 n).isEmpty = false := isEmpty_eq_false_iff.mpr Nat.toDigits_ne_nil
  unfold parseU64
  dsimp only
  split
  · -- a sign is no digit
    rename_i rest heq
    cases hdigit '+' (heq ▸ mem_cons_self)
  · rw [hempty, all_eq_true.mpr hdigit, hvalue]
    exact if_pos hn

theorem generatedGoalOrdinal_minted (s : String) {n : Nat} (hn : n ≤ u64Max) :
    generatedGoalOrdinal s (s ++ ":goal-" ++ toString n) = some n := by
  have hlist : (s ++ ":goal-" ++ toString n).toList
      = s.toList ++ (":goal-".toList ++ Nat.toDigits 10 n) := by
    rw [String.toList_append, String.toList_append, append_assoc, ← Nat.toList_repr]
    rfl
  unfold generatedGoalOrdinal
  rw [hlist, isPrefixOf?_append]
  exact parseU64_toDigits hn

/-! ## Runs -/

section Runs

variable {Text : Type} {config : FileConfig Text} {order : List FileName → List FileName}
  {known : Set String} {d : Disk Text} {store : GoalStore}

section

variable (hlaw : config.Lawful order known) (h : Stores config known d store)
include hlaw h

theorem indexOn_eq {s : SessionId} (hknown : s.asStr ∈ known) : indexOn config order d s
    = .ok ⟨store.readIndex s, sessionIndexSchemaVersion, s.asStr⟩ :=
  congrArg Prod.fst (reads_index hlaw h hknown).runAll_eq

theorem loadOn_eq (hs : Coherent store) {g : GoalId} (hknown : g.asStr ∈ known) :
    loadOn config order d g = .ok (store.load g) := by
  unfold loadOn
  rw [(reads_record hlaw h hs hknown).runAll_eq]
  change Except.ok (((store.records.lookup g.asStr).map _).map _) = _
  rw [Option.map_map]
  exact congrArg Except.ok Option.map_id'

theorem ordinalOn_eq {s : SessionId} (hknown : s.asStr ∈ known) :
    ordinalOn config order d s = store.nextGoalOrdinal s := by
  have hreads : Prog.Reads (exec config order) (nextGoalOrdinal config s).run d
      (store.nextGoalOrdinal s) := by
    refine (reads_index hlaw h hknown).bindOk ?_
    unfold GoalStore.nextGoalOrdinal
    cases checkedAdd (store.readIndex s).goalIdHighWater 1 with
    | none | some ordinal => exact Prog.reads_ret
  exact congrArg Prod.fst hreads.runAll_eq

end

theorem step_save (hlaw : config.Lawful order known) (h : Stores config known d store)
    (hs : Coherent store)
    {record : GoalRecord}
    (hknown : record.goalId.asStr ∈ known ∧ record.sessionId.asStr ∈ known) :
    ∃ d' result, step config order d (.save record none) = (.saved result, d') ∧
      (Stores config known d' (store.write record) ∨
        Stores config known d' store ∧ result ≠ .ok ()) := by
  have hrun := (throughout_save hlaw h hknown.1 hknown.2 hs).runAll.2
  refine ⟨_, _, rfl, ?_⟩
  cases hsave : store.save config.store record with rw [hsave] at hrun
  | ok after =>
    obtain ⟨rfl, -⟩ := save_eq_ok hsave
    exact .inl hrun.2
  | error e =>
    rw [hrun.1, hrun.2]
    exact .inr ⟨h, nofun⟩

theorem settled_write {record : GoalRecord} (h : ∀ s, Settled store s) (s : SessionId) :
    Settled (store.write record) s where
  complete k r hlookup hsession := by
    have hcases : (k = record.goalId.asStr ∧ record = r) ∨ store.records.lookup k = some r := by
      unfold write at hlookup
      split at hlookup
      · exact .inr hlookup
      rcases Table.lookup_insert_eq_some hlookup with hnew | ⟨-, hold⟩
      · exact .inl hnew
      · exact .inr hold
    rcases hcases with ⟨rfl, rfl⟩ | hold
    · rw [← hsession]
      exact mem_readIndex_write_self
    · exact mem_readIndex_write ((h s).complete k r hold hsession)
  covers := by
    rw [readIndex_write]
    split_ifs with hnew
    · obtain ⟨-, rfl⟩ := hnew
      intro k hk n hn
      unfold SessionIndex.push at hk ⊢
      rcases mem_append.mp hk with hold | hlast
      · have hle := (h record.sessionId).covers k hold n hn
        split
        · exact hle
        · exact hle.trans (le_max_left _ _)
      · rw [mem_singleton.mp hlast] at hn
        rw [hn]
        exact le_max_right _ _
    · exact (h s).covers

/-- What is on disk after the run so far. -/
def Kept (config : FileConfig Text) (known : Set String) (past : List (DiskAct × DiskAnswer))
    (d : Disk Text) : Prop :=
  ∃ store, Stores config known d store ∧ Coherent store ∧ ∀ record,
    (.save record none, .saved (.ok ())) ∈ past →
      record.goalId.asStr ∈ (store.readIndex record.sessionId).goalIds

variable {past : List (DiskAct × DiskAnswer)}

theorem Kept.grow {e : DiskAct × DiskAnswer} {d' : Disk Text} {after : GoalStore}
    (hlisted : ∀ record, (.save record none, .saved (.ok ())) ∈ past →
      record.goalId.asStr ∈ (store.readIndex record.sessionId).goalIds)
    (hd' : Stores config known d' after) (hafter : Coherent after) (hgrows : Grows store after)
    (hlast : ∀ record, e = (.save record none, .saved (.ok ())) →
      record.goalId.asStr ∈ (after.readIndex record.sessionId).goalIds) :
    Kept config known (past ++ [e]) d' := by
  refine ⟨after, hd', hafter, fun record hmem => ?_⟩
  rcases mem_append.mp hmem with hold | hnew
  · exact (hgrows record.sessionId).subset (hlisted record hold)
  · exact hlast record (mem_singleton.mp hnew).symm

section

variable (hlaw : config.Lawful order known)
include hlaw

/-- **One step** of a run. -/
theorem kept_step {a : DiskAct} (h : Kept config known past d) (hok : Allowed config order known d a) :
    Kept config known (past ++ [(a, (step config order d a).1)]) (step config order d a).2 := by
  obtain ⟨store, hd, hs, hlisted⟩ := h
  have hstart : ∀ process, Stores config known { d with process, sequence := 0 } store :=
    fun process => hd.of_json rfl
  cases a with
  | save record stop =>
    obtain ⟨hknown, hr, hkeeps⟩ := hok
    rw [loadOn_eq hlaw hd hs hknown.1] at hkeeps
    replace hkeeps := fun stored hload => hkeeps stored (congrArg Except.ok hload)
    cases stop with
    | none =>
      obtain ⟨d', result, hstep, hd' | ⟨hd', hfailed⟩⟩ := step_save hlaw hd hs hknown
      · obtain ⟨hafter, hgrows⟩ := hs.partway hr hkeeps .saved
        rw [hstep]
        refine Kept.grow hlisted hd' hafter hgrows fun record' heq => ?_
        cases heq
        exact mem_readIndex_write_self
      · rw [hstep]
        refine Kept.grow hlisted hd' hs (fun _ => prefix_rfl) fun record' heq => ?_
        cases heq
        exact absurd rfl hfailed
    | some n =>
      obtain ⟨after, hd', hpartway⟩ := (throughout_save hlaw hd hknown.1 hknown.2 hs).cut n
      obtain ⟨hafter, hgrows⟩ := hs.partway hr hkeeps hpartway
      refine Kept.grow hlisted hd' hafter hgrows fun record' heq => ?_
      cases heq
  | start process stop =>
    have hkept : ∀ t after, Stores config known t after → Repaired [] store after →
        ∀ answer, Kept config known (past ++ [(.start process stop, answer)]) t := by
      intro t after ht hafter answer
      refine Kept.grow hlisted ht hafter.coherent hafter.grows fun record' heq => ?_
      cases heq
    have hrecover := throughout_recover hlaw (hstart process) hs hkept
    cases stop with
    | none => exact hrecover.runAll.1 _
    | some n => exact hrecover.cut n _

theorem settled_saves (saves : List GoalRecord) (d : Disk Text)
    (store : GoalStore) (h : Stores config known d store) (hs : Coherent store)
    (hsettled : ∀ s, Settled store s)
    (hok : Along (step config order) (Allowed config order known) d (saves.map (.save · none))) :
    ∃ later, Stores config known (after (step config order) d (saves.map (.save · none))) later ∧
      Coherent later ∧ ∀ s, Settled later s := by
  induction saves generalizing d store with
  | nil => exact ⟨store, h, hs, hsettled⟩
  | cons record rest ih =>
    obtain ⟨⟨hknown, hr, hkeeps⟩, hrest⟩ := hok
    obtain ⟨d', result, hstep, hd'⟩ := step_save hlaw h hs hknown
    rw [map_cons, after]
    rw [hstep] at hrest ⊢
    rcases hd' with hd' | ⟨hd', -⟩
    · refine ih d' _ hd' (hs.partway hr (fun stored hload => hkeeps stored ?_) .saved).1
        (settled_write hsettled) hrest
      rw [loadOn_eq hlaw h hs hknown.1, hload]
    · exact ih d' store hd' hs hsettled hrest

theorem step_start_settled (h : Stores config known d store)
    (hs : Coherent store) (htidy : Tidy d) (hsettled : ∀ s, Settled store s) (process : Nat) :
    step config order d (.start process none)
      = (.started (.ok ⟨0, 0, 0⟩), { d with process, sequence := 0 }) := by
  have hstart : Stores config known { d with process, sequence := 0 } store := h.of_json rfl
  have hrun := (reads_recover hlaw hstart hs htidy hsettled).runAll_eq
  unfold step
  dsimp only
  rw [hrun]

end

theorem kept_empty : Kept config known [] (Disk.empty : Disk Text) := by
  have hstores : Stores config known (Disk.empty : Disk Text) .empty :=
    ⟨fun k _ => rfl, fun k _ => rfl, fun dir stem hsome => (by cases hsome),
      fun k r hlookup => (by cases hlookup), fun k i hlookup => (by cases hlookup)⟩
  have hcoherent : Coherent .empty := by
    refine ⟨fun k r hlookup => ?_, fun k r hlookup => ?_, fun k i hlookup => ?_, fun s k hk => ?_,
      fun s => nodup_nil⟩
    · cases hlookup
    · cases hlookup
    · cases hlookup
    · cases hk
  exact ⟨.empty, hstores, hcoherent, fun record hmem => absurd hmem not_mem_nil⟩

theorem recovered_of_repaired (hlaw : config.Lawful order known)
    {d' : Disk Text} {next : GoalStore} (h : Stores config known d store)
    (hlisted : ∀ record, (.save record none, .saved (.ok ())) ∈ past →
      record.goalId.asStr ∈ (store.readIndex record.sessionId).goalIds)
    (hnext : Stores config known d' next) (hrepaired : Repaired [] store next)
    (hsettled : ∀ s, Settled next s) (s : SessionId) (hknown : s.asStr ∈ known) :
    ∃ old new, Recovered config order known past d d' s old new := by
  have hload : ∀ {g : GoalId}, g.asStr ∈ known → loadOn config order d' g = .ok (next.load g) :=
    loadOn_eq hlaw hnext hrepaired.coherent
  refine ⟨_, _, indexOn_eq hlaw h hknown, indexOn_eq hlaw hnext hknown, hrepaired.coherent.once s,
    fun k => ⟨fun hk => ?_, ?_⟩, hrepaired.grows s, fun record hmem hsession => ?_,
    fun g r n hg hr hsession hn => ?_⟩
  · obtain ⟨r, hlookup, hsession⟩ := hrepaired.coherent.listed s k hk
    have hk := (hnext.goals k r hlookup).1
    obtain rfl := hrepaired.coherent.keyed k r hlookup
    exact ⟨hk, r.goalId, r, rfl, (hload hk).trans (congrArg Except.ok hlookup), hsession⟩
  · rintro ⟨hg, g, r, rfl, hr, hsession⟩
    rw [hload hg] at hr
    exact (hsettled s).complete g.asStr r (Except.ok.inj hr) hsession
  · rw [← hsession]
    exact hlisted record hmem
  · rw [hload hg] at hr
    have hmem := (hsettled s).complete g.asStr r (Except.ok.inj hr) hsession
    exact (hsettled s).covers g.asStr hmem n hn

end Runs

/-- **Opening the store repairs it**, whatever saves and openings have left that may have
stopped between any two file operations, for any set of identifiers that does not collide. -/
theorem reopened_store_repaired {Text : Type} (config : FileConfig Text)
    (order : List FileName → List FileName) (known : Set String)
    (hlaw : config.Lawful order known) (acts : List DiskAct) (d : Disk Text)
    (hd : d = after (step config order) .empty acts)
    (hok : Along (step config order) (Allowed config order known) .empty acts) (process : Nat) :
    ∃ report d', step config order d (.start process none) = (.started (.ok report), d') ∧
      (∀ g : GoalId, g.asStr ∈ known → loadOn config order d' g = loadOn config order d g) ∧
      (∀ s : SessionId, s.asStr ∈ known → ∃ old new,
        Recovered config order known (history (step config order) .empty acts) d d' s old new) ∧
      (∀ process', step config order d' (.start process' none)
        = (.started (.ok ⟨0, 0, 0⟩), { d' with process := process', sequence := 0 })) ∧
      ∀ saves : List GoalRecord,
        Along (step config order) (Allowed config order known) d' (saves.map (.save · none)) →
        ∀ (s : SessionId) n, s.asStr ∈ known → ordinalOn config order
            (after (step config order) d' (saves.map (.save · none))) s = .ok n →
          ∀ (g : GoalId) r, g.asStr ∈ known → loadOn config order
              (after (step config order) d' (saves.map (.save · none))) g = .ok (some r) →
            r.sessionId = s → g.asStr ≠ s.asStr ++ ":goal-" ++ toString n := by
  obtain ⟨store, hstores, hs, hlisted⟩ := history_inv (I := Kept config known)
    (fun past d a h hok => kept_step hlaw h hok) acts [] .empty kept_empty hok
  rw [← hd] at hstores
  have hstart : Stores config known { d with process, sequence := 0 } store := hstores.of_json rfl
  have hnothing : ∀ t after, Stores config known t after → Repaired [] store after → True :=
    fun _ _ _ _ => trivial
  obtain ⟨-, report, next, hresult, hnext, hrepaired, hsettled, htidy⟩ :=
    (throughout_recover hlaw hstart hs hnothing).runAll
  refine ⟨report, (Prog.runAll (exec config order) (recover config).run
      { d with process, sequence := 0 }).2,
    Prod.ext (congrArg DiskAnswer.started hresult) rfl, fun g hg => ?_,
    recovered_of_repaired hlaw hstores hlisted hnext hrepaired hsettled,
    step_start_settled hlaw hnext hrepaired.coherent htidy hsettled,
    fun saves hsaves s n hknown hn g r hgoal hload hsession hg => ?_⟩
  · rw [loadOn_eq hlaw hstores hs hg, loadOn_eq hlaw hnext hrepaired.coherent hg]
    unfold GoalStore.load
    rw [hrepaired.records]
  · obtain ⟨later, hlater, hcoherent, hall⟩ :=
      settled_saves hlaw saves _ next hnext hrepaired.coherent hsettled hsaves
    rw [ordinalOn_eq hlaw hlater hknown] at hn
    rw [loadOn_eq hlaw hlater hcoherent hgoal] at hload
    unfold GoalStore.nextGoalOrdinal at hn
    split at hn
    · cases hn
    rename_i ordinal hordinal
    cases hn
    obtain ⟨hle, rfl⟩ := checkedAdd_eq_some hordinal
    have hminted := generatedGoalOrdinal_minted s.asStr hle
    rw [← hg] at hminted
    have hmem := (hall s).complete g.asStr r (Except.ok.inj hload) hsession
    have hcovered := (hall s).covers g.asStr hmem _ hminted
    omega

/-! ## Records that make it fail -/

section Concrete

/-- Files that hold what they stand for. -/
abbrev plainFiles : FileConfig (GoalEnvelope ⊕ SessionIndexEnvelope) where
  budget := default
  digestOf := id
  pathText _ := ""
  codec :=
    { len := fun _ => 0
      goalText := fun e => .ok (.inl e)
      goalOf := fun text => match text with
        | .inl e => .ok e
        | .inr _ => .error "not a goal"
      indexText := fun i => .ok (.inr ⟨i.schema, i.sessionId, .durable i.entries i.highWater, 0⟩)
      indexOf := fun text => match text with
        | .inl _ => .error "not an index"
        | .inr e => .ok e }

theorem plainFiles_lawful : plainFiles.Lawful id .univ where
  goal _ := ⟨_, rfl, rfl⟩
  index _ := ⟨_, rfl, rfl⟩
  digest := Set.injOn_id _
  listed names := List.Perm.refl names

def firstSession : SessionId := ⟨"s", by decide +kernel⟩

/-- A session beside it. -/
def otherSession : SessionId := ⟨"t", by decide +kernel⟩

def firstGoal : GoalRecord where
  goalId := ⟨"s:goal-1", by decide +kernel⟩
  sessionId := firstSession
  objective := "ship"
  status := .active
  progress := []
  createdAt := ⟨0⟩
  updatedAt := ⟨0⟩
  closedAt := none
  compactedEntries := 0
  revision := 1

/-- The record is written, and the process stops before its index is. -/
def stoppedSave : List DiskAct := [.save firstGoal (some 5)]

theorem firstGoal_wellFormed : firstGoal.WellFormed where
  objective := by decide +kernel
  revision := by decide
  closedAt := rfl
  increasing := trivial
  notes _ h := absurd h not_mem_nil

theorem reopened_store_repaired_orphan : ∃ report d' new,
    step plainFiles id (after (step plainFiles id) .empty stoppedSave) (.start 7 none)
      = (.started (.ok report), d') ∧
    indexOn plainFiles id d' firstSession = .ok new ∧ "s:goal-1" ∈ new.goalIds := by
  have hallowed : Along (step plainFiles id) (Allowed plainFiles id .univ) .empty stoppedSave := by
    refine ⟨⟨⟨trivial, trivial⟩, firstGoal_wellFormed, fun stored hload => ?_⟩, trivial⟩
    cases hload
  obtain ⟨report, d', hstep, hload, hsessions, -⟩ := reopened_store_repaired plainFiles id .univ
    plainFiles_lawful stoppedSave _ rfl hallowed 7
  obtain ⟨old, new, hrecovered⟩ := hsessions firstSession trivial
  refine ⟨report, d', new, hstep, hrecovered.after, (hrecovered.exactly _).mpr ?_⟩
  refine ⟨trivial, firstGoal.goalId, firstGoal, rfl, ?_, rfl⟩
  rw [hload _ trivial]
  decide +kernel

/-- The store cannot be opened: a record says that it has no objective. -/
def refusesObjective : DiskAnswer → Bool
  | .started (.error (.corrupt _ (.invalid field _))) => field = "objective"
  | _ => false

/-- The index of the session lists a goal of another one. -/
def listsForeign (d : Disk (GoalEnvelope ⊕ SessionIndexEnvelope)) : Bool :=
  match indexOn plainFiles id d firstSession, loadOn plainFiles id d firstGoal.goalId with
  | .ok index, .ok (some record) =>
    firstGoal.goalId.asStr ∈ index.goalIds && record.sessionId = otherSession
  | _, _ => false

theorem unreadable_or_moved_goal :
    refusesObjective (step plainFiles id (after (step plainFiles id) .empty
      [.save { firstGoal with objective := "" } none]) (.start 7 none)).1 = true ∧
    listsForeign (step plainFiles id (after (step plainFiles id) .empty
      [.save firstGoal none, .save { firstGoal with sessionId := otherSession, revision := 2 } none])
      (.start 7 none)).2 = true := by
  decide +kernel

end Concrete

end GtaClaw.Goal.FileStore
