import GtaClaw.Runtime.Ids

/-!
# Goals

A goal of a session, as it is persisted, and the ceilings on what a session may keep.
The counters are `u64` in the program: they are kept in `Nat` and every sum saturates
where the program's does.
-/

namespace GtaClaw.Goal

open GtaClaw.Runtime

inductive GoalStatus where
  | active
  | achieved
  | abandoned
  | failed
  | superseded
  deriving DecidableEq, Repr

namespace GoalStatus

def all : List GoalStatus := [.active, .achieved, .abandoned, .failed, .superseded]

def label : GoalStatus → String
  | .active => "active"
  | .achieved => "achieved"
  | .abandoned => "abandoned"
  | .failed => "failed"
  | .superseded => "superseded"

def isClosed (status : GoalStatus) : Bool := status ≠ .active

end GoalStatus

structure GoalProgress where
  index : Nat
  note : String
  recordedAt : Timestamp
  compacted : Bool
  deriving DecidableEq

structure GoalRecord where
  goalId : GoalId
  sessionId : SessionId
  objective : String
  status : GoalStatus
  /-- Oldest first. -/
  progress : List GoalProgress
  createdAt : Timestamp
  updatedAt : Timestamp
  closedAt : Option Timestamp
  compactedEntries : Nat
  revision : Nat
  deriving DecidableEq

/-- The entries that are no summaries. -/
def liveEntries (progress : List GoalProgress) : Nat := progress.countP (!·.compacted)

/-- The notes that a goal accounts for. -/
def GoalRecord.counted (record : GoalRecord) : Nat :=
  liveEntries record.progress + record.compactedEntries

/-! ## Budgets -/

structure BudgetUsage where
  goals : Nat
  bytes : Nat
  deriving DecidableEq, Repr

structure GoalBudget where
  maxGoalsPerSession : Nat
  maxRecordBytes : Nat
  maxSessionBytes : Nat
  deriving DecidableEq, Repr

instance : Inhabited GoalBudget := ⟨⟨64, 256 * 1024, 4 * 1024 * 1024⟩⟩

inductive BudgetError where
  | tooManyGoals (limit held : Nat)
  | recordTooLarge (limit offered : Nat)
  | sessionBytesExhausted (limit held offered : Nat)
  deriving DecidableEq, Repr

namespace BudgetError

def ceiling : BudgetError → String
  | .tooManyGoals .. => "max_goals_per_session"
  | .recordTooLarge .. => "max_record_bytes"
  | .sessionBytesExhausted .. => "max_session_bytes"

def display (error : BudgetError) : String :=
  "goal budget " ++ error.ceiling ++ " exceeded: " ++
    match error with
    | .tooManyGoals limit held =>
      "the session holds " ++ toString held ++ " of " ++ toString limit ++ " goals"
    | .recordTooLarge limit offered =>
      "the record is " ++ toString offered ++ " bytes of " ++ toString limit
    | .sessionBytesExhausted limit held offered =>
      toString held ++ " bytes held plus " ++ toString offered ++ " offered exceeds " ++
        toString limit

end BudgetError

/-- `GoalBudget::admit`: may one record be written, next to what is held already? -/
def GoalBudget.admitRecord (budget : GoalBudget) (held : BudgetUsage) (offeredBytes : Nat)
    (isNewGoal : Bool) : Except BudgetError BudgetUsage :=
  if budget.maxRecordBytes < offeredBytes then
    .error (.recordTooLarge budget.maxRecordBytes offeredBytes)
  else if isNewGoal && budget.maxGoalsPerSession ≤ held.goals then
    .error (.tooManyGoals budget.maxGoalsPerSession held.goals)
  else
    let goals := if isNewGoal then saturatingAdd held.goals 1 else held.goals
    let offered := min offeredBytes u64Max
    let bytes := saturatingAdd held.bytes offered
    if budget.maxSessionBytes < bytes then
      .error (.sessionBytesExhausted budget.maxSessionBytes held.bytes offered)
    else .ok ⟨goals, bytes⟩

end GtaClaw.Goal
