import GtaClaw.Goal.Store
import GtaClaw.Lib.Prog

/-!
# The goal service

The operations of the service are programs whose calls go to the store and the clock.
Every mutation is load, change, save: other clients can come in between, and what then
keeps two of them from overwriting each other is the revision that a save must carry.

A client of the store is a task of a `Pool`. The environment says what the clock reads
and whether a call fails although the store would have accepted it: the lock is busy or
the disk fails, or the change is made and only its durability could not be proven.
-/

namespace GtaClaw.Goal

open Lib GtaClaw.Runtime

structure GoalConfig where
  maxProgressEntries : Nat
  maxObjectiveBytes : Nat
  maxNoteBytes : Nat
  deriving DecidableEq, Repr

instance : Inhabited GoalConfig := ⟨⟨32, 4096, 2048⟩⟩

inductive GoalError where
  | port (error : PortError)
  | unknown (goalId : GoalId)
  | noActiveGoal
  | alreadyClosed (goalId : GoalId) (status : GoalStatus)
  | notATerminalStatus (status : GoalStatus)
  | invalidObjective (reason : String)
  | invalidNote (reason : String)
  | invalidBudget
  | unusableGoalId (error : IdentifierError)
  deriving DecidableEq

/-! ## Calls -/

inductive GoalCall where
  | now
  | nextGoalOrdinal (sessionId : SessionId)
  | load (goalId : GoalId)
  | save (record : GoalRecord)
  | listForSession (sessionId : SessionId)
  | compactClosedHistory (sessionId : SessionId) (keepRecentProgress : Nat)

@[reducible] def GoalCall.Answer : GoalCall → Type
  | .now => Timestamp
  | .nextGoalOrdinal _ => Except PortError Nat
  | .load _ => Except PortError (Option GoalRecord)
  | .save _ => Except PortError Unit
  | .listForSession _ => Except PortError (List GoalRecord)
  | .compactClosedHistory .. => Except StoreError CompactionSummary

abbrev GoalProg := Prog GoalCall GoalCall.Answer

abbrev GoalM := ExceptT GoalError GoalProg

/-- A failure of the store ends the operation. -/
def ofPort {α : Type} : Except PortError α → Except GoalError α
  | .ok a => .ok a
  | .error e => .error (.port e)

namespace GoalM

def now : GoalM Timestamp := ExceptT.mk (.call .now fun t => .ret (.ok t))

def nextGoalOrdinal (sessionId : SessionId) : GoalM Nat :=
  ExceptT.mk (.call (.nextGoalOrdinal sessionId) fun answer => .ret (ofPort answer))

def load (goalId : GoalId) : GoalM (Option GoalRecord) :=
  ExceptT.mk (.call (.load goalId) fun answer => .ret (ofPort answer))

def save (record : GoalRecord) : GoalM Unit :=
  ExceptT.mk (.call (.save record) fun answer => .ret (ofPort answer))

def listForSession (sessionId : SessionId) : GoalM (List GoalRecord) :=
  ExceptT.mk (.call (.listForSession sessionId) fun answer => .ret (ofPort answer))

end GoalM

/-! ## Changes of a record -/

namespace GoalRecord

def fresh (goalId : GoalId) (sessionId : SessionId) (objective : String) (now : Timestamp) :
    GoalRecord where
  goalId := goalId
  sessionId := sessionId
  objective := objective
  status := .active
  progress := []
  createdAt := now
  updatedAt := now
  closedAt := none
  compactedEntries := 0
  revision := 1

/-- The goal is closed, by an operator or by its replacement. -/
def closed (record : GoalRecord) (status : GoalStatus) (now : Timestamp) : GoalRecord :=
  { record with
    status := status
    updatedAt := now
    closedAt := some now
    revision := saturatingAdd record.revision 1 }

/-- The oldest entries are folded into one summary once there are more than the budget. -/
def compact (record : GoalRecord) (budget : Nat) (now : Timestamp) : GoalRecord :=
  if record.progress.length ≤ budget then record
  else
    match record.progress with
    | [] => record
    | head :: _ =>
      let removed := record.progress.length - (budget - 1)
      let newlyFolded := liveEntries (record.progress.take removed)
      let compactedEntries := saturatingAdd record.compactedEntries (min newlyFolded u64Max)
      { record with
        compactedEntries := compactedEntries
        progress :=
          ⟨head.index, "compacted " ++ toString compactedEntries ++ " earlier entries", now, true⟩
            :: record.progress.drop removed }

def progressed (record : GoalRecord) (note : String) (budget : Nat) (now : Timestamp) : GoalRecord :=
  let index := match record.progress.getLast? with
    | none => 0
    | some entry => saturatingAdd entry.index 1
  let entry : GoalProgress := ⟨index, note, now, false⟩
  let pushed := { record with progress := record.progress ++ [entry] }
  let compacted := pushed.compact budget now
  { compacted with updatedAt := now, revision := saturatingAdd record.revision 1 }

/-- Was the goal written by a `start` that got no further? -/
def isEquivalentNewGoal (record : GoalRecord) (sessionId : SessionId) (objective : String) : Bool :=
  record.sessionId = sessionId && record.objective = objective && record.status = .active
    && record.progress.isEmpty && record.createdAt = record.updatedAt && record.closedAt.isNone
    && record.compactedEntries = 0 && record.revision = 1

end GoalRecord

/-! ## The operations -/

section Operations

variable (config : GoalConfig)

def validateObjective (objective : String) : Except GoalError String :=
  if config.maxProgressEntries = 0 then .error .invalidBudget
  else
    let objective := trimmed objective
    if objective.isEmpty then .error (.invalidObjective "must not be empty")
    else if objective.utf8ByteSize > config.maxObjectiveBytes then
      .error (.invalidObjective "is too long")
    else .ok objective

def validateNote (note : String) : Except GoalError String :=
  if config.maxProgressEntries = 0 then .error .invalidBudget
  else
    let note := trimmed note
    if note.isEmpty then .error (.invalidNote "must not be empty")
    else if note.utf8ByteSize > config.maxNoteBytes then .error (.invalidNote "is too long")
    else .ok note

/-- The newest goal of the session that is active. -/
def activeGoal (sessionId : SessionId) : GoalM (Option GoalRecord) := do
  let goals ← GoalM.listForSession sessionId
  return goals.reverse.find? (·.status = .active)

/-- The goal that was active is closed, if there was one. -/
def supersede (previous : Option GoalRecord) (now : Timestamp) : GoalM Unit :=
  match previous with
  | none => return
  | some previous => GoalM.save (previous.closed .superseded now)

def set (sessionId : SessionId) (goalId : GoalId) (objective : String) : GoalM GoalRecord := do
  let objective ← ExceptT.mk (.ret (validateObjective config objective))
  let now ← GoalM.now
  let previous ← activeGoal sessionId
  let record := GoalRecord.fresh goalId sessionId objective now
  -- the replacement is durable before the goal it replaces is closed
  GoalM.save record
  supersede previous now
  return record

def requireActive (goalId : GoalId) : GoalM GoalRecord := do
  match ← GoalM.load goalId with
  | none => throw (.unknown goalId)
  | some record =>
    if record.status.isClosed then throw (.alreadyClosed goalId record.status)
    else return record

def recordProgress (goalId : GoalId) (note : String) : GoalM GoalRecord := do
  let note ← ExceptT.mk (.ret (validateNote config note))
  let record ← requireActive goalId
  let now ← GoalM.now
  let record := record.progressed note config.maxProgressEntries now
  GoalM.save record
  return record

def close (goalId : GoalId) (status : GoalStatus) : GoalM GoalRecord :=
  if !status.isClosed then throw (.notATerminalStatus status)
  else do
    let record ← requireActive goalId
    let now ← GoalM.now
    let record := record.closed status now
    GoalM.save record
    return record

def start (sessionId : SessionId) (objective : String) : GoalM GoalRecord := do
  let objective ← ExceptT.mk (.ret (validateObjective config objective))
  let ordinal ← GoalM.nextGoalOrdinal sessionId
  match Identifier.new "goal id" (sessionId.asStr ++ ":goal-" ++ toString ordinal) with
  | .error e => throw (.unusableGoalId e)
  | .ok goalId =>
    match ← GoalM.load goalId with
    | none => set config sessionId goalId objective
    | some orphan =>
      if orphan.isEquivalentNewGoal sessionId objective then
        let previous ← activeGoal sessionId
        GoalM.save orphan
        supersede previous orphan.createdAt
        return orphan
      else set config sessionId goalId objective

end Operations

/-! ## Clients -/

inductive GoalOp where
  | set (sessionId : SessionId) (goalId : GoalId) (objective : String)
  | start (sessionId : SessionId) (objective : String)
  | recordProgress (goalId : GoalId) (note : String)
  | close (goalId : GoalId) (status : GoalStatus)
  | compactClosedHistory (sessionId : SessionId) (keepRecentProgress : Nat)

inductive GoalResult where
  | goal (result : Except GoalError GoalRecord)
  | compacted (result : Except StoreError CompactionSummary)

def GoalOp.body (config : GoalConfig) : GoalOp → GoalProg GoalResult
  | .set sessionId goalId objective => .goal <$> (Goal.set config sessionId goalId objective).run
  | .start sessionId objective => .goal <$> (Goal.start config sessionId objective).run
  | .recordProgress goalId note => .goal <$> (Goal.recordProgress config goalId note).run
  | .close goalId status => .goal <$> (Goal.close goalId status).run
  | .compactClosedHistory sessionId keepRecentProgress =>
    .call (.compactClosedHistory sessionId keepRecentProgress) fun answer => .ret (.compacted answer)

/-- A write that the store has accepted, and whose it was. -/
structure Write where
  task : Nat
  op : GoalOp
  record : GoalRecord

structure Shared where
  store : GoalStore
  /-- All accepted writes, in their order. -/
  writes : List Write

inductive Fault where
  /-- Nothing was changed. -/
  | refused (error : StoreError)
  /-- The change was made, and its last write could not be made durable. -/
  | committed (error : StoreError)
  /-- A compaction failed after so many goals. -/
  | stopped (goals : Nat) (error : StoreError)

structure GoalEnv where
  now : Timestamp
  fault : Option Fault

def Fault.error : Fault → StoreError
  | .refused e => e
  | .committed e => e
  | .stopped _ e => e

namespace Shared

variable (config : StoreConfig) (task : Nat) (op : GoalOp) (s : Shared)

def record (store : GoalStore) (written : List GoalRecord) : Shared :=
  ⟨store, s.writes ++ written.map (⟨task, op, ·⟩)⟩

def read {α : Type} (fault : Option Fault) (answer : Except StoreError α) : Except PortError α :=
  match fault, answer with
  | some fault, _ => .error fault.error.toPort
  | none, .error e => .error e.toPort
  | none, .ok a => .ok a

def save (fault : Option Fault) (record : GoalRecord) : Except PortError Unit × Shared :=
  match fault, s.store.save config record with
  | some (.refused e), _ => (.error e.toPort, s)
  | some (.stopped _ e), _ => (.error e.toPort, s)
  | _, .error e => (.error e.toPort, s)
  | some (.committed e), .ok store => (.error e.toPort, s.record task op store [record])
  | none, .ok store => (.ok (), s.record task op store [record])

def compact (fault : Option Fault) (sessionId : SessionId) (keep : Nat) :
    Except StoreError CompactionSummary × Shared :=
  match fault with
  | some (.refused e) => (.error e, s)
  | some (.stopped goals e) =>
    let (_, done) := s.store.compactClosedHistory config sessionId keep (some goals)
    (.error e, s.record task op done.store done.written)
  | some (.committed e) =>
    let (_, done) := s.store.compactClosedHistory config sessionId keep none
    (.error e, s.record task op done.store done.written)
  | none =>
    let (result, done) := s.store.compactClosedHistory config sessionId keep none
    (result.map fun _ => done.summary, s.record task op done.store done.written)

/-- One call, by one task. -/
def exec (config : StoreConfig) (task : Nat) (op : GoalOp) (s : Shared) (env : GoalEnv) :
    (c : GoalCall) → c.Answer × Shared
  | .now => (env.now, s)
  | .nextGoalOrdinal sessionId => (read env.fault (s.store.nextGoalOrdinal sessionId), s)
  | .load goalId => (read env.fault (.ok (s.store.load goalId)), s)
  | .save record => s.save config task op env.fault record
  | .listForSession sessionId => (read env.fault (s.store.listForSession config sessionId), s)
  | .compactClosedHistory sessionId keep => s.compact config task op env.fault sessionId keep

end Shared

abbrev GoalWorld := Pool Shared GoalOp GoalCall GoalCall.Answer GoalResult

abbrev GoalAct := PoolAct GoalOp GoalEnv

def GoalWorld.new : GoalWorld := ⟨⟨.empty, []⟩, []⟩

def GoalWorld.step (goals : GoalConfig) (config : StoreConfig) : GoalWorld → GoalAct → Unit × GoalWorld :=
  Pool.step (GoalOp.body goals) (Shared.exec config)

end GtaClaw.Goal
