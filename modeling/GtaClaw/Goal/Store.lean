import GtaClaw.Goal.Wire
import GtaClaw.Lib.Table

/-!
# The goal store

What the store holds: the record of every goal, and for every session an index that
lists its goals in the order in which they came and remembers the highest ordinal that
was generated for it. Each operation is made under the store's lock, so here it is one
function; `Files.lean` takes it apart into what it does on disk.

A save must carry the revision after the stored one. Revisions are counted with
`saturating_add`.
-/

namespace GtaClaw.Goal

open Lib GtaClaw.Runtime

inductive StoreError where
  | io (path source : String)
  | committedButNotDurable (path source : String)
  | corrupt (path : String) (source : WireError)
  | encoding (source : WireError)
  | conflict (expected held : Nat)
  | busy (attempts : Nat)
  | budget (error : BudgetError)
  deriving DecidableEq, Repr

namespace StoreError

def display : StoreError → String
  | .io path source => "goal store io failed at " ++ path ++ ": " ++ source
  | .committedButNotDurable path source =>
    "goal store committed " ++ path ++
      " but could not make the directory entry power-loss durable: " ++ source ++
      "; do not retry blindly"
  | .corrupt path source => "goal record at " ++ path ++ " is corrupt: " ++ source.display
  | .encoding source => "goal record could not be encoded: " ++ source.display
  | .conflict expected held =>
    "expected revision " ++ toString expected ++ ", caller held " ++ toString held
  | .busy attempts => "goal store remained busy after " ++ toString attempts ++ " lock attempts"
  | .budget source => source.display

/-- `PortError::from`. -/
def toPort : StoreError → PortError
  | .conflict expected held =>
    .conflict ("expected revision " ++ toString expected ++ ", caller held " ++ toString held)
  | .busy attempts => .conflict ("goal store busy after " ++ toString attempts ++ " lock attempts")
  | .budget error => .invalid error.display
  | .committedButNotDurable path source =>
    .committedButNotDurable (display (.committedButNotDurable path source))
  | other => .unavailable other.display

end StoreError

/-! ## Generated identifiers -/

/-- `str::parse::<u64>`. -/
def parseU64 (text : List Char) : Option Nat :=
  let digits := match text with
    | '+' :: rest => rest
    | _ => text
  if digits.isEmpty || !digits.all Char.isDigit then none
  else
    let value := digits.foldl (fun n c => 10 * n + (c.toNat - '0'.toNat)) 0
    if value ≤ u64Max then some value else none

def generatedGoalOrdinal (sessionId goalId : String) : Option Nat := do
  let rest ← sessionId.toList.isPrefixOf? goalId.toList
  let ordinal ← ":goal-".toList.isPrefixOf? rest
  parseU64 ordinal

/-! ## The store -/

structure SessionIndex where
  goalIds : List String
  goalIdHighWater : Nat
  deriving DecidableEq, Repr

def SessionIndex.push (index : SessionIndex) (record : GoalRecord) : SessionIndex where
  goalIds := index.goalIds ++ [record.goalId.asStr]
  goalIdHighWater :=
    match generatedGoalOrdinal record.sessionId.asStr record.goalId.asStr with
    | none => index.goalIdHighWater
    | some ordinal => max index.goalIdHighWater ordinal

structure StoreConfig where
  budget : GoalBudget
  recordPathFor : String → String
  /-- The length of a record as it is written, in bytes. -/
  encodedLen : GoalRecord → Except WireError Nat

structure GoalStore where
  records : Table String GoalRecord
  indexes : Table String SessionIndex

structure CompactionSummary where
  closedGoalsExamined : Nat
  goalsRewritten : Nat
  progressEntriesRemoved : Nat
  reclaimedBytes : Nat
  goalIdsPreserved : Nat
  deriving DecidableEq, Repr

namespace GoalStore

def empty : GoalStore := ⟨∅, ∅⟩

def load (store : GoalStore) (goalId : GoalId) : Option GoalRecord :=
  store.records.lookup goalId.asStr

def readIndex (store : GoalStore) (sessionId : SessionId) : SessionIndex :=
  (store.indexes.lookup sessionId.asStr).getD ⟨[], 0⟩

def nextGoalOrdinal (store : GoalStore) (sessionId : SessionId) : Except StoreError Nat :=
  match checkedAdd (store.readIndex sessionId).goalIdHighWater 1 with
  | none => .error (.encoding (.invalid "goal_id_high_water" "goal identifier space is exhausted"))
  | some ordinal => .ok ordinal

section Configured

variable (config : StoreConfig) (store : GoalStore) {record : GoalRecord}

/-- The index names a goal that is not there. -/
def missing (goalId : String) : StoreError :=
  .corrupt (config.recordPathFor goalId)
    (.invalid "goal_ids" ("the index names " ++ goalId ++ ", which no longer exists"))

def listGoals : List String → Except StoreError (List GoalRecord)
  | [] => .ok []
  | goalId :: rest =>
    match store.records.lookup goalId with
    | none => .error (missing config goalId)
    | some record =>
      match listGoals rest with
      | .error e => .error e
      | .ok records => .ok (record :: records)

def listForSession (sessionId : SessionId) : Except StoreError (List GoalRecord) :=
  store.listGoals config (store.readIndex sessionId).goalIds

def recordBytes (goalId : String) : Nat :=
  match store.records.lookup goalId with
  | none => 0
  | some record =>
    match config.encodedLen record with
    | .error _ => 0
    | .ok bytes => bytes

def usageOfIndex (index : SessionIndex) : BudgetUsage :=
  ⟨index.goalIds.length,
    index.goalIds.foldl
      (fun bytes goalId => saturatingAdd bytes (store.recordBytes config goalId)) 0⟩

def expectedRevision (goalId : GoalId) : Nat :=
  match store.load goalId with
  | none => 1
  | some stored => saturatingAdd stored.revision 1

def isNew (record : GoalRecord) : Bool :=
  record.goalId.asStr ∉ (store.readIndex record.sessionId).goalIds

/-- The record was written before, and its index was not. -/
def adoptsIdenticalOrphan (record : GoalRecord) : Bool :=
  store.isNew record && store.load record.goalId = some record

/-- What a save leaves behind. -/
def write (record : GoalRecord) : GoalStore where
  records := if store.adoptsIdenticalOrphan record then store.records
    else store.records.insert record.goalId.asStr record
  indexes := if store.isNew record then
      store.indexes.insert record.sessionId.asStr ((store.readIndex record.sessionId).push record)
    else store.indexes

/-- `save_blocking`. -/
def save (record : GoalRecord) : Except StoreError GoalStore :=
  match config.encodedLen record with
  | .error e => .error (.encoding e)
  | .ok bytes =>
    let expected := store.expectedRevision record.goalId
    if !store.adoptsIdenticalOrphan record && record.revision ≠ expected then
      .error (.conflict expected record.revision)
    else
      let held := store.usageOfIndex config (store.readIndex record.sessionId)
      -- a replacement is charged its new size, not its old size as well
      let held := if store.isNew record then held
        else ⟨held.goals, held.bytes - store.recordBytes config record.goalId.asStr⟩
      match config.budget.admitRecord held bytes (store.isNew record) with
      | .error e => .error (.budget e)
      | .ok _ => .ok (store.write record)

theorem readIndex_insert (records : Table String GoalRecord) (s s' : SessionId)
    (index : SessionIndex) :
    (GoalStore.mk records (store.indexes.insert s.asStr index)).readIndex s'
      = if s' = s then index else store.readIndex s' := by
  unfold readIndex
  split_ifs with hs
  · rw [hs, AList.lookup_insert]
    rfl
  · rw [AList.lookup_insert_ne fun h => hs (Identifier.ext h)]

/-- A write changes the index of its own session, if the goal is new there. -/
theorem readIndex_write (record : GoalRecord) (sessionId : SessionId) :
    (store.write record).readIndex sessionId
      = if store.isNew record = true ∧ sessionId = record.sessionId then
          (store.readIndex sessionId).push record
        else store.readIndex sessionId := by
  unfold write
  by_cases hnew : store.isNew record = true
  · rw [if_pos hnew, readIndex_insert]
    split
    · rename_i hsession
      rw [if_pos ⟨hnew, hsession⟩, hsession]
    · rename_i hsession
      rw [if_neg fun h => hsession h.2]
  · have hnot : ¬ (store.isNew record = true ∧ sessionId = record.sessionId) := fun h => hnew h.1
    rw [if_neg hnot, if_neg hnew]
    rfl

theorem save_eq_ok {config : StoreConfig} {store after : GoalStore}
    (h : store.save config record = .ok after) :
    after = store.write record ∧
      (store.adoptsIdenticalOrphan record = false →
        record.revision = store.expectedRevision record.goalId) := by
  unfold save at h
  split at h
  · cases h
  dsimp only at h
  split at h
  · cases h
  rename_i hok
  split at h
  · cases h
  refine ⟨(Except.ok.inj h).symm, fun hnot => ?_⟩
  by_contra hne
  refine hok ?_
  rw [hnot]
  exact decide_eq_true hne

theorem mem_readIndex_write {store : GoalStore} {sessionId : SessionId}
    {k : String} (hk : k ∈ (store.readIndex sessionId).goalIds) :
    k ∈ ((store.write record).readIndex sessionId).goalIds := by
  rw [readIndex_write]
  split
  · exact List.mem_append_left _ hk
  · exact hk

theorem mem_readIndex_write_self {store : GoalStore} :
    record.goalId.asStr ∈ ((store.write record).readIndex record.sessionId).goalIds := by
  rw [readIndex_write]
  split_ifs with hold
  · exact List.mem_append_right _ (List.mem_singleton.mpr rfl)
  rw [and_iff_left rfl, isNew, decide_eq_true_iff, not_not] at hold
  exact hold

/-- What is listed is what is stored. -/
theorem mem_listGoals {config : StoreConfig} {store : GoalStore} {r : GoalRecord} :
    ∀ {goalIds : List String} {goals : List GoalRecord}, store.listGoals config goalIds = .ok goals →
      (r ∈ goals ↔ ∃ k ∈ goalIds, store.records.lookup k = some r)
  | [], _, h => by
    cases h
    simp
  | goalId :: rest, goals, h => by
    unfold listGoals at h
    split at h
    · cases h
    rename_i record hrecord
    split at h
    · cases h
    rename_i records hrest
    cases h
    rw [List.mem_cons, mem_listGoals hrest, List.exists_mem_cons_iff, hrecord, Option.some.injEq,
      eq_comm]

/-! ## Compaction of closed goals -/

/-- A compaction under way: what it has left and written, and its summary. -/
structure Compaction where
  store : GoalStore
  written : List GoalRecord
  summary : CompactionSummary

/-- A goal with only its newest entries. -/
def dropEntries (record : GoalRecord) (remove : Nat) : GoalRecord :=
  { record with
    progress := record.progress.drop remove
    compactedEntries := saturatingAdd record.compactedEntries
      (min (liveEntries (record.progress.take remove)) u64Max)
    revision := saturatingAdd record.revision 1 }

def compactGoals (keepRecentProgress : Nat) :
    List String → Compaction → Except StoreError Unit × Compaction
  | [], done => (.ok (), done)
  | goalId :: rest, done =>
    match done.store.records.lookup goalId with
    | none => (.error (missing config goalId), done)
    | some record =>
      if !record.status.isClosed then compactGoals keepRecentProgress rest done
      else
        let examined := done.summary.closedGoalsExamined + 1
        let remove := record.progress.length - keepRecentProgress
        if remove = 0 then
          compactGoals keepRecentProgress rest
            { done with summary := { done.summary with closedGoalsExamined := examined } }
        else
          let compacted := dropEntries record remove
          match config.encodedLen compacted with
          | .error e => (.error (.encoding e), done)
          | .ok bytes =>
            let previousBytes := done.store.recordBytes config goalId
            compactGoals keepRecentProgress rest
              { store :=
                  { done.store with records := done.store.records.insert goalId compacted }
                written := done.written ++ [compacted]
                summary :=
                  { closedGoalsExamined := examined
                    goalsRewritten := done.summary.goalsRewritten + 1
                    progressEntriesRemoved :=
                      saturatingAdd done.summary.progressEntriesRemoved remove
                    reclaimedBytes :=
                      saturatingAdd done.summary.reclaimedBytes (previousBytes - bytes)
                    goalIdsPreserved := done.summary.goalIdsPreserved } }

/-- `compact_closed_history`, of the first goals of the index or of all. -/
def compactClosedHistory (sessionId : SessionId) (keepRecentProgress : Nat)
    (goals : Option Nat) : Except StoreError Unit × Compaction :=
  let goalIds := (store.readIndex sessionId).goalIds
  compactGoals config keepRecentProgress (goals.elim goalIds goalIds.take)
    ⟨store, [], ⟨0, 0, 0, 0, goalIds.length⟩⟩

end Configured

end GoalStore

end GtaClaw.Goal
