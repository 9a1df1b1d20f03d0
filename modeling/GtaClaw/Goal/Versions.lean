import GtaClaw.Goal.Service

/-!
# The versions of a goal

The accepted writes of a goal are its versions, and the store holds the last one. As
long as no revision has saturated, the `k`-th version carries revision `k`: a record
that a client has read, and whose successor the store still accepts, is therefore the
last version, and nothing was written in between. `Valid` states this together with
what the versions count.
-/

namespace GtaClaw.Goal

open Lib GtaClaw.Runtime GoalRecord GoalStore List

/-! ## What a change of a record counts -/

theorem liveEntries_append (xs ys : List GoalProgress) :
    liveEntries (xs ++ ys) = liveEntries xs + liveEntries ys := countP_append

theorem folded_counted {compacted n : Nat} {progress : List GoalProgress}
    (h : liveEntries progress + compacted ≤ u64Max) :
    liveEntries (progress.drop n)
        + saturatingAdd compacted (min (liveEntries (progress.take n)) u64Max)
      = liveEntries progress + compacted := by
  have hsplit := liveEntries_append (progress.take n) (progress.drop n)
  rw [take_append_drop] at hsplit
  rw [saturatingAdd_of_le (by omega)]
  omega

namespace GoalRecord

theorem counted_compact {record : GoalRecord} {budget : Nat} {now : Timestamp}
    (h : record.counted ≤ u64Max) : (record.compact budget now).counted = record.counted := by
  unfold compact
  split
  · rfl
  split
  · rfl
  have hfold := folded_counted (n := record.progress.length - (budget - 1)) h
  exact hfold

theorem compact_frame (record : GoalRecord) (budget : Nat) (now : Timestamp) :
    (record.compact budget now).goalId = record.goalId
      ∧ (record.compact budget now).sessionId = record.sessionId
      ∧ (record.compact budget now).status = record.status := by
  unfold compact
  split
  · exact ⟨rfl, rfl, rfl⟩
  split
  · exact ⟨rfl, rfl, rfl⟩
  · exact ⟨rfl, rfl, rfl⟩

theorem counted_progressed {record : GoalRecord} {note : String} {budget : Nat} {now : Timestamp}
    (h : record.counted + 1 ≤ u64Max) :
    (record.progressed note budget now).counted = record.counted + 1 := by
  have hpushed : ∀ entry : GoalProgress, entry.compacted = false →
      ({ record with progress := record.progress ++ [entry] } : GoalRecord).counted
        = record.counted + 1 := by
    intro entry hentry
    have hone : liveEntries [entry] = 1 := by
      unfold liveEntries
      rw [countP_singleton, hentry]
      rfl
    change liveEntries (record.progress ++ [entry]) + _ = _
    rw [liveEntries_append, hone]
    exact Nat.add_right_comm _ _ _
  change (compact _ budget now).counted = _
  rw [counted_compact, hpushed _ rfl]
  rw [hpushed _ rfl]
  exact h

end GoalRecord

/-! ## Versions -/

def GoalOp.isNote : GoalOp → Bool
  | .recordProgress .. => true
  | _ => false

/-- The session whose goal the operation replaces. -/
def GoalOp.replaces : GoalOp → Option SessionId
  | .set sessionId .. | .start sessionId _ => some sessionId
  | _ => none

theorem GoalOp.isNote_of_replaces {op : GoalOp} {sessionId : SessionId}
    (h : op.replaces = some sessionId) : op.isNote = false := by
  cases op with
  | set | start | close | compactClosedHistory => rfl
  | recordProgress => cases h

namespace Shared

def writesOf (s : Shared) (goalId : GoalId) : List Write :=
  s.writes.filter (·.record.goalId = goalId)

def ownWrites (s : Shared) (task : Nat) : List Write := s.writes.filter (·.task = task)

def Seen (s : Shared) (record : GoalRecord) : Prop := ∃ w ∈ s.writes, w.record = record

structure Valid (s : Shared) : Prop where
  last : ∀ g : GoalId, s.store.load g = (s.writesOf g).getLast?.map (·.record)
  keyed : ∀ k record, s.store.records.lookup k = some record → record.goalId.asStr = k
  indexed : ∀ k record, s.store.records.lookup k = some record →
    k ∈ (s.store.readIndex record.sessionId).goalIds
  revision : ∀ (g : GoalId) (k : Nat) (w : Write), (s.writesOf g)[k]? = some w → k < u64Max →
    w.record.revision = k + 1
  counted : ∀ (g : GoalId) (w : Write), (s.writesOf g).length ≤ u64Max →
    (s.writesOf g).getLast? = some w → w.record.counted = (s.writesOf g).countP (·.op.isNote)
  distinct : ((s.writes.filter (·.op.isNote)).map (·.task)).Nodup

theorem valid_new : Valid ⟨.empty, []⟩ where
  last _ := rfl
  keyed k record h := by cases h
  indexed k record h := by cases h
  revision g k w h := by cases h
  counted g w _ h := by cases h
  distinct := nodup_nil

variable {s : Shared} {g : GoalId} {r : GoalRecord}

theorem writesOf_append (s : Shared) (store : GoalStore) (w : Write) (g : GoalId) :
    writesOf ⟨store, s.writes ++ [w]⟩ g
      = if w.record.goalId = g then s.writesOf g ++ [w] else s.writesOf g := by
  unfold writesOf
  split <;> simp_all

theorem Seen.of_load (h : Valid s) (hload : s.store.load g = some r) : Seen s r ∧ r.goalId = g := by
  rw [h.last g, Option.map_eq_some_iff] at hload
  obtain ⟨w, hw, rfl⟩ := hload
  have hmem : w ∈ s.writesOf g := mem_of_getLast? hw
  obtain ⟨hin, hgoal⟩ := mem_filter.mp hmem
  exact ⟨⟨w, hin, rfl⟩, of_decide_eq_true hgoal⟩

def storedRevision (s : Shared) (goalId : GoalId) : Nat := (s.store.load goalId).elim 0 (·.revision)

theorem Valid.storedRevision (h : s.Valid) (hn : (s.writesOf g).length ≤ u64Max) :
    s.storedRevision g = (s.writesOf g).length := by
  unfold Shared.storedRevision
  rw [h.last g]
  rcases eq_nil_or_concat (s.writesOf g) with hnil | ⟨before, w, hconcat⟩
  · rw [hnil]
    rfl
  rw [concat_eq_append] at hconcat
  have hlength : (s.writesOf g).length = before.length + 1 := by
    rw [hconcat, length_append]
    rfl
  have hlast : (s.writesOf g)[before.length]? = some w := by
    rw [hconcat]
    exact getElem?_concat_length
  have hrevision := h.revision g before.length w hlast (by omega)
  rw [hlength, hconcat, getLast?_concat]
  exact hrevision

theorem Valid.expected (h : Valid s) (hn : (s.writesOf g).length < u64Max) :
    s.store.expectedRevision g = (s.writesOf g).length + 1 := by
  have hrevision := h.storedRevision hn.le
  rw [← hrevision] at hn ⊢
  unfold expectedRevision
  unfold Shared.storedRevision at hn ⊢
  cases hload : s.store.load g with rw [hload] at hn
  | none => rfl
  | some r => exact saturatingAdd_of_le hn

section

variable (h : Valid s) (hseen : Seen s r) (hn : (s.writesOf r.goalId).length < u64Max)
include h hseen hn

theorem Valid.seen_revision :
    ∃ k w, (s.writesOf r.goalId)[k]? = some w ∧ w.record = r ∧ r.revision = k + 1 := by
  obtain ⟨w, hw, rfl⟩ := hseen
  have hmem : w ∈ s.writesOf w.record.goalId := mem_filter.mpr ⟨hw, decide_eq_true rfl⟩
  obtain ⟨k, hk⟩ := mem_iff_getElem?.mp hmem
  obtain ⟨hlt, -⟩ := List.getElem?_eq_some_iff.mp hk
  exact ⟨k, w, hk, rfl, h.revision _ k w hk (by omega)⟩

theorem Valid.seen_lt : r.revision < s.store.expectedRevision r.goalId := by
  obtain ⟨k, w, hk, -, hrevision⟩ := h.seen_revision hseen hn
  obtain ⟨hlt, -⟩ := List.getElem?_eq_some_iff.mp hk
  rw [h.expected hn]
  omega

/-- **No update is lost**: a record whose successor would be accepted is the last version. -/
theorem Valid.current (hrevision : saturatingAdd r.revision 1 = s.store.expectedRevision r.goalId) :
    ∃ w, (s.writesOf r.goalId).getLast? = some w ∧ w.record = r := by
  obtain ⟨k, w, hk, hr, hat⟩ := h.seen_revision hseen hn
  obtain ⟨hlt, -⟩ := List.getElem?_eq_some_iff.mp hk
  rw [saturatingAdd_of_le (by omega), h.expected hn] at hrevision
  refine ⟨w, ?_, hr⟩
  rw [getLast?_eq_getElem?, ← hk]
  congr 1
  omega

end

/-! ## One more version -/

/-- The write goes on from the last version. -/
structure Follows (s : Shared) (w : Write) : Prop where
  revision : (s.writesOf w.record.goalId).length < u64Max →
    w.record.revision = (s.writesOf w.record.goalId).length + 1
  counted : (s.writesOf w.record.goalId).length < u64Max →
    w.record.counted
      = (s.writesOf w.record.goalId).countP (·.op.isNote) + w.op.isNote.toNat
  /-- A client records one note at most. -/
  once : w.op.isNote = true → s.ownWrites w.task = []

theorem Valid.append {store : GoalStore} {w : Write} (h : Valid s) (hfollows : Follows s w)
    (hrecords : store.records = s.store.records.insert w.record.goalId.asStr w.record)
    (hindexes : ∀ sessionId k, k ∈ (s.store.readIndex sessionId).goalIds →
      k ∈ (store.readIndex sessionId).goalIds)
    (hindexed : w.record.goalId.asStr ∈ (store.readIndex w.record.sessionId).goalIds) :
    Valid ⟨store, s.writes ++ [w]⟩ where
  last g := by
    rw [writesOf_append]
    unfold load
    rw [hrecords]
    split
    · rename_i heq
      rw [heq, AList.lookup_insert, getLast?_concat]
      rfl
    rename_i hne
    rw [AList.lookup_insert_ne fun heq => hne (Identifier.ext heq).symm]
    exact h.last g
  keyed k record hlookup := by
    rw [hrecords] at hlookup
    rcases Table.lookup_insert_eq_some hlookup with ⟨rfl, rfl⟩ | ⟨-, hold⟩
    · rfl
    · exact h.keyed k record hold
  indexed k record hlookup := by
    rw [hrecords] at hlookup
    rcases Table.lookup_insert_eq_some hlookup with ⟨rfl, rfl⟩ | ⟨-, hold⟩
    · exact hindexed
    · exact hindexes _ k (h.indexed k record hold)
  revision g k x hx hk := by
    rw [writesOf_append] at hx
    split_ifs at hx with heq
    · rcases getElem?_concat_some hx with hold | ⟨rfl, rfl⟩
      · exact h.revision g k x hold hk
      · rw [← heq] at hk ⊢
        exact hfollows.revision hk
    · exact h.revision g k x hx hk
  counted g x hle hx := by
    rw [writesOf_append] at hle hx ⊢
    split at hx
    · rename_i heq
      rw [if_pos heq] at hle ⊢
      rw [getLast?_concat] at hx
      cases hx
      rw [length_append] at hle
      rw [countP_append, countP_singleton, ← heq]
      rw [← heq] at hle
      rw [hfollows.counted hle]
      cases w.op.isNote with
      | true | false => rfl
    · rename_i hne
      rw [if_neg hne] at hle ⊢
      exact h.counted g x hle hx
  distinct := by
    rw [filter_append, filter_singleton]
    cases hnote : w.op.isNote with
    | false =>
      rw [cond_false, append_nil]
      exact h.distinct
    | true =>
      rw [cond_true, map_append, map_singleton]
      refine nodup_append.mpr ⟨h.distinct, nodup_singleton _, ?_⟩
      intro i hi j hj heq
      rw [mem_singleton] at hj
      obtain ⟨x, hx, hxi⟩ := mem_map.mp hi
      -- the same client would have written before
      have hown : x ∈ s.ownWrites w.task := by
        refine mem_filter.mpr ⟨(mem_filter.mp hx).1, decide_eq_true ?_⟩
        rw [hxi, heq, hj]
      rw [hfollows.once hnote] at hown
      exact not_mem_nil hown

theorem Valid.counted_current (h : Valid s) (hseen : Seen s r)
    (hn : (s.writesOf r.goalId).length < u64Max)
    (hrevision : saturatingAdd r.revision 1 = s.store.expectedRevision r.goalId) :
    r.counted = (s.writesOf r.goalId).countP (·.op.isNote) := by
  obtain ⟨w, hw, rfl⟩ := h.current hseen hn hrevision
  exact h.counted _ w (by omega) hw

end Shared

/-! ## What clients save -/

/-- The records that an operation may offer to the store: new ones, and successors of
versions that it has read. -/
inductive Offer (config : GoalConfig) (s : Shared) : GoalOp → GoalRecord → Prop where
  | fresh {op : GoalOp} {sessionId : SessionId} (hop : op.replaces = some sessionId)
      (goalId : GoalId) (objective : String) (now : Timestamp) :
      Offer config s op (.fresh goalId sessionId objective now)
  /-- A record that seems to be an orphan. -/
  | again {op : GoalOp} {r : GoalRecord} (hop : op.isNote = false) (hseen : s.Seen r) :
      Offer config s op r
  | close {op : GoalOp} {r : GoalRecord} (hop : op.isNote = false) (hseen : s.Seen r)
      (status : GoalStatus) (hclosed : status.isClosed = true) (now : Timestamp) :
      Offer config s op (r.closed status now)
  | note {r : GoalRecord} (text note : String) (hseen : s.Seen r) (now : Timestamp) :
      Offer config s (.recordProgress r.goalId text)
        (r.progressed note config.maxProgressEntries now)

section Accept

variable {config : GoalConfig} {s : Shared} {op : GoalOp} {r : GoalRecord} {i : Nat}

theorem progressed_frame (record : GoalRecord) (note : String) (budget : Nat) (now : Timestamp) :
    (record.progressed note budget now).goalId = record.goalId
      ∧ (record.progressed note budget now).sessionId = record.sessionId
      ∧ (record.progressed note budget now).status = record.status
      ∧ (record.progressed note budget now).revision = saturatingAdd record.revision 1 := by
  obtain ⟨hgoal, hsession, hstatus⟩ := compact_frame _ budget now
  exact ⟨hgoal, hsession, hstatus, rfl⟩

/-- **What is accepted goes on from the last version.** -/
theorem Offer.follows (hoffer : Offer config s op r) (h : s.Valid)
    (haccept : r.revision = s.store.expectedRevision r.goalId)
    (hown : op.isNote = true → s.ownWrites i = []) : s.Follows ⟨i, op, r⟩ := by
  refine ⟨fun hn => haccept.trans (h.expected hn), fun hn => ?_, hown⟩
  cases hoffer with
  | fresh hop goalId objective now =>
    -- revision 1 is expected of a goal without versions only
    have hlength := haccept.trans (h.expected hn)
    have hnone : s.writesOf goalId = [] := eq_nil_of_length_eq_zero (Nat.succ.inj hlength).symm
    rw [op.isNote_of_replaces hop]
    change 0 = (s.writesOf goalId).countP _ + 0
    rw [hnone]
    rfl
  | again hop hseen => exact absurd haccept (Nat.ne_of_lt (h.seen_lt hseen hn))
  | @close _ r hop hseen status hclosed now =>
    rw [hop]
    exact h.counted_current (r := r) hseen hn haccept
  | @note r text note hseen now =>
    obtain ⟨hgoal, -, -, hrevision⟩ := progressed_frame r note config.maxProgressEntries now
    rw [hgoal] at hn haccept ⊢
    have hcounted := h.counted_current hseen hn (hrevision.symm.trans haccept)
    rw [counted_progressed, hcounted]
    · rfl
    · rw [hcounted]
      exact countP_le_length.trans_lt hn

/-- Every record is in the index of its session, so none is taken for an orphan. -/
theorem Shared.Valid.adopts_none (h : s.Valid) (r : GoalRecord) :
    s.store.adoptsIdenticalOrphan r = false := by
  unfold adoptsIdenticalOrphan isNew
  by_cases hload : s.store.load r.goalId = some r
  · rw [decide_eq_false (not_not.mpr (h.indexed _ r hload))]
    rfl
  · rw [decide_eq_false hload, Bool.and_false]

theorem Shared.Valid.save {store : StoreConfig} {after : GoalStore} (h : s.Valid)
    (hoffer : Offer config s op r) (hown : op.isNote = true → s.ownWrites i = [])
    (hsave : s.store.save store r = .ok after) : (s.record i op after [r]).Valid := by
  obtain ⟨rfl, hrevision⟩ := save_eq_ok hsave
  have hadopts := h.adopts_none r
  refine h.append (hoffer.follows h (hrevision hadopts) hown) ?_ (fun _ _ => mem_readIndex_write)
    mem_readIndex_write_self
  unfold write
  rw [hadopts]
  rfl

/-! ## Compaction -/

theorem Shared.Valid.rewritten {r' : GoalRecord} (h : s.Valid) (hload : s.store.load r.goalId = some r)
    (hgoal : r'.goalId = r.goalId) (hrevision : r'.revision = saturatingAdd r.revision 1)
    (hcounted : r.counted ≤ u64Max → r'.counted = r.counted) (hop : op.isNote = false) :
    s.Follows ⟨i, op, r'⟩ := by
  have hexpected : s.store.expectedRevision r.goalId = saturatingAdd r.revision 1 := by
    unfold expectedRevision
    rw [hload]
  have hseen := (Seen.of_load h hload).1
  refine ⟨fun hn => ?_, fun hn => ?_, fun hnote => by cases hop.symm.trans hnote⟩
  · rw [hgoal] at hn ⊢
    rw [hrevision, ← hexpected, h.expected hn]
  · rw [hgoal] at hn ⊢
    have hcurrent := h.counted_current hseen hn hexpected.symm
    rw [hcounted, hcurrent, hop]
    · rfl
    · rw [hcurrent]
      exact countP_le_length.trans hn.le

theorem Shared.Valid.compactGoals {store : StoreConfig} {keep : Nat} (hop : op.isNote = false) :
    ∀ (goalIds : List String) (done : GoalStore.Compaction),
      (s.record i op done.store done.written).Valid →
      (s.record i op (GoalStore.compactGoals store keep goalIds done).2.store
        (GoalStore.compactGoals store keep goalIds done).2.written).Valid
  | [], _, h => h
  | goalId :: rest, done, h => by
    unfold GoalStore.compactGoals
    split
    · exact h
    rename_i record hlookup
    split
    · exact compactGoals hop rest done h
    dsimp only
    split
    · exact compactGoals hop rest _ h
    split
    · exact h
    refine compactGoals hop rest _ ?_
    have hkey : record.goalId.asStr = goalId := h.keyed goalId record hlookup
    have hload : (s.record i op done.store done.written).store.load record.goalId
        = some record := by
      unfold GoalStore.load
      rw [hkey]
      exact hlookup
    have hfollows : (s.record i op done.store done.written).Follows
        ⟨i, op, GoalStore.dropEntries record (record.progress.length - keep)⟩ :=
      h.rewritten hload rfl rfl folded_counted hop
    unfold Shared.record
    rw [map_append, ← append_assoc]
    refine h.append hfollows ?_ (fun _ _ hk => hk) ?_
    · exact congrArg (AList.insert · _ _) hkey.symm
    · exact h.indexed _ record hload

end Accept

end GtaClaw.Goal
