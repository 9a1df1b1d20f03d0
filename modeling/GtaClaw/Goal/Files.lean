import GtaClaw.Goal.Store
import GtaClaw.Lib.Crash

/-!
# The goal store on disk

`goals/` has a file for each goal and `sessions/` one for each session, named by the
digest of the identifier. A file is written under a temporary name and renamed, so it
is there as a whole or not at all; the record is written before the index, so a process
that stops between the two leaves a record that no index lists.

Everything here is a program of file operations, and may stop between any two of them.
`serde_json`, the digest and the order in which a directory is listed are parameters.
What a temporary file holds before it is renamed is read by nobody, so that it is
written in one go loses nothing.
-/

namespace GtaClaw.Goal

open Lib GtaClaw.Runtime

/-! ## Files -/

inductive Dir where
  | goals
  | sessions
  deriving DecidableEq, Repr

/-- The names that the store gives: `<stem>.json` and `pending-<process>-<ordinal>`. -/
inductive FileName where
  | json (stem : String)
  | pending (process ordinal : Nat)
  deriving DecidableEq, Repr

structure Path where
  dir : Dir
  name : FileName
  deriving DecidableEq, Repr

inductive FileOp (Text : Type) where
  /-- The next name for a temporary file. -/
  | temporary
  | create (path : Path) (text : Text)
  | rename (source target : Path)
  | remove (path : Path)
  | read (path : Path)
  | metadata (path : Path)
  | readDir (dir : Dir)

abbrev FileOp.Answer {Text : Type} : FileOp Text → Type
  | .temporary => FileName
  | .create .. => Unit
  | .rename .. => Unit
  | .remove _ => Unit
  | .read _ => Option Text
  | .metadata _ => Option Nat
  | .readDir _ => List FileName

/-- The files, and of the process the two numbers that its temporary names are made of. -/
structure Disk (Text : Type) where
  files : Table Path Text
  process : Nat
  sequence : Nat

def Disk.empty {Text : Type} : Disk Text := ⟨∅, 0, 0⟩

section Exec

variable {Text : Type} (len : Text → Nat) (order : List FileName → List FileName)

def Disk.exec (d : Disk Text) : (op : FileOp Text) → op.Answer × Disk Text
  | .temporary =>
    (.pending d.process d.sequence, { d with sequence := (d.sequence + 1) % (u64Max + 1) })
  | .create path text => ((), { d with files := d.files.insert path text })
  | .rename source target =>
    match d.files.lookup source with
    | none => ((), d)
    | some text => ((), { d with files := (d.files.erase source).insert target text })
  | .remove path => ((), { d with files := d.files.erase path })
  | .read path => (d.files.lookup path, d)
  | .metadata path => ((d.files.lookup path).map len, d)
  | .readDir dir => (order ((d.files.keys.filter (·.dir = dir)).map (·.name)), d)

end Exec

/-! ## Index files -/

/-- An index as it is kept in memory. -/
structure StoredIndex extends SessionIndex where
  schema : Nat
  sessionId : String
  deriving DecidableEq, Repr

inductive SessionGoalIds where
  | legacy (goalIds : List String)
  | durable (entries : List String) (highWater : Nat)
  deriving DecidableEq

/-- An index as it is read. -/
structure SessionIndexEnvelope where
  schema : Nat
  sessionId : String
  goalIds : SessionGoalIds
  goalIdHighWater : Nat
  deriving DecidableEq

/-- An index as it is written. -/
structure DurableSessionIndex where
  schema : Nat
  sessionId : String
  entries : List String
  highWater : Nat
  deriving DecidableEq

def sessionIndexSchemaVersion : Nat := 2

def legacySessionIndexSchemaVersion : Nat := 1

/-- `serde_json`, for the two kinds of file. -/
structure Codec (Text : Type) where
  len : Text → Nat
  goalText : GoalEnvelope → Except String Text
  goalOf : Text → Except String GoalEnvelope
  indexText : DurableSessionIndex → Except String Text
  indexOf : Text → Except String SessionIndexEnvelope

structure FileConfig (Text : Type) where
  budget : GoalBudget
  digestOf : String → String
  pathText : Path → String
  codec : Codec Text

abbrev FileProg (Text : Type) := Prog (FileOp Text) FileOp.Answer

abbrev FileM (Text : Type) := ExceptT StoreError (FileProg Text)

namespace FileM

variable {Text : Type}

def call (op : FileOp Text) : FileM Text op.Answer := ExceptT.mk (.call op fun x => .ret (.ok x))

/-- Something that makes no file operation. -/
def check {α : Type} (result : Except StoreError α) : FileM Text α := ExceptT.mk (.ret result)

end FileM

namespace FileStore

section Programs

variable {Text : Type} (config : FileConfig Text)

def recordPathFor (goalId : String) : Path := ⟨.goals, .json (config.digestOf goalId)⟩

def indexPathFor (sessionId : String) : Path := ⟨.sessions, .json (config.digestOf sessionId)⟩

variable (record : GoalRecord)

def encode : Except WireError Text :=
  match config.codec.goalText (.ofRecord record) with
  | .error detail => .error (.malformed detail)
  | .ok text => .ok text

def decode (text : Text) : Except WireError GoalRecord :=
  match config.codec.goalOf text with
  | .error detail => .error (.malformed detail)
  | .ok envelope => envelope.toRecord

def decodeIndex (path : Path) (text : Text) : Except StoreError StoredIndex :=
  let refused (found : Nat) : StoreError := .corrupt (config.pathText path) <|
    if found ≠ sessionIndexSchemaVersion then .unsupportedSchema sessionIndexSchemaVersion found
    else .malformed "session index payload does not match its schema"
  match config.codec.indexOf text with
  | .error detail => .error (.corrupt (config.pathText path) (.malformed detail))
  | .ok envelope =>
    match envelope.goalIds with
    | .legacy goalIds =>
      if envelope.schema = legacySessionIndexSchemaVersion then
        .ok ⟨⟨goalIds, envelope.goalIdHighWater⟩, envelope.schema, envelope.sessionId⟩
      else .error (refused envelope.schema)
    | .durable entries highWater =>
      if envelope.schema = sessionIndexSchemaVersion then
        .ok ⟨⟨entries, highWater⟩, envelope.schema, envelope.sessionId⟩
      else .error (refused envelope.schema)

/-- What `write_index` serialises: always the current schema. -/
def encodeIndex (sessionId : String) (index : SessionIndex) : Except StoreError Text :=
  match config.codec.indexText
      ⟨sessionIndexSchemaVersion, sessionId, index.goalIds, index.goalIdHighWater⟩ with
  | .error detail => .error (.encoding (.malformed detail))
  | .ok text => .ok text

def writeAtomically (path : Path) (text : Text) : FileM Text Unit := do
  let name ← FileM.call .temporary
  FileM.call (.create ⟨path.dir, name⟩ text)
  FileM.call (.rename ⟨path.dir, name⟩ path)

/-- The record, and the length of its file. -/
def readRecordSized (path : Path) : FileM Text (Option (GoalRecord × Nat)) := do
  match ← FileM.call (.read path) with
  | none => return none
  | some text =>
    match decode config text with
    | .error e => throw (.corrupt (config.pathText path) e)
    | .ok record => return some (record, config.codec.len text)

def readIndex (sessionId : SessionId) : FileM Text StoredIndex := do
  match ← FileM.call (.read (indexPathFor config sessionId.asStr)) with
  | none => return ⟨⟨[], 0⟩, sessionIndexSchemaVersion, sessionId.asStr⟩
  | some text => FileM.check (decodeIndex config (indexPathFor config sessionId.asStr) text)

def writeIndex (sessionId : String) (index : SessionIndex) : FileM Text Unit := do
  let text ← FileM.check (encodeIndex config sessionId index)
  writeAtomically (indexPathFor config sessionId) text

def nextGoalOrdinal (sessionId : SessionId) : FileM Text Nat := do
  let index ← readIndex config sessionId
  match checkedAdd index.goalIdHighWater 1 with
  | none => throw (.encoding (.invalid "goal_id_high_water" "goal identifier space is exhausted"))
  | some ordinal => return ordinal

/-! ## Saving -/

/-- The sizes of the goals of an index, added to what was counted before. -/
def sizesOf : List String → Nat → FileM Text Nat
  | [], bytes => return bytes
  | goalId :: rest, bytes => do
    match ← FileM.call (.metadata (recordPathFor config goalId)) with
    | none => sizesOf rest bytes
    | some size => sizesOf rest (saturatingAdd bytes size)

def usageOfIndex (index : StoredIndex) : FileM Text BudgetUsage := do
  let bytes ← sizesOf config index.goalIds 0
  return ⟨index.goalIds.length, bytes⟩

def checkRevision (existing : Option (GoalRecord × Nat))
    (adoptsIdenticalOrphan : Bool) : Except StoreError Unit :=
  let expected := match existing with
    | none => 1
    | some (stored, _) => saturatingAdd stored.revision 1
  if !adoptsIdenticalOrphan && record.revision ≠ expected then
    .error (.conflict expected record.revision)
  else .ok ()

def checkBudget (held : BudgetUsage) (existing : Option (GoalRecord × Nat)) (encodedLen : Nat)
    (isNew : Bool) : Except StoreError Unit :=
  -- a replacement is charged its new size, not its old size as well
  let held := if isNew then held else ⟨held.goals, held.bytes - existing.elim 0 (·.2)⟩
  match config.budget.admitRecord held encodedLen isNew with
  | .error e => .error (.budget e)
  | .ok _ => .ok ()

def publishRecord (encoded : Text) (adoptsIdenticalOrphan : Bool) : FileM Text Unit :=
  if adoptsIdenticalOrphan then return ()
  else writeAtomically (recordPathFor config record.goalId.asStr) encoded

def publishIndex (index : StoredIndex) (isNew : Bool) : FileM Text Unit :=
  if isNew then writeIndex config index.sessionId (index.push record)
  else return ()

/-- `save_blocking`, when the record and the index have been read. -/
def saveOver (encoded : Text) (existing : Option (GoalRecord × Nat))
    (index : StoredIndex) : FileM Text Unit := do
  let isNew := decide (record.goalId.asStr ∉ index.goalIds)
  let adoptsIdenticalOrphan := isNew && existing.any (·.1 = record)
  FileM.check (checkRevision record existing adoptsIdenticalOrphan)
  let held ← usageOfIndex config index
  FileM.check (checkBudget config held existing (config.codec.len encoded) isNew)
  publishRecord config record encoded adoptsIdenticalOrphan
  publishIndex config record index isNew

def save : FileM Text Unit := do
  let encoded ← FileM.check ((encode config record).mapError .encoding)
  let existing ← readRecordSized config (recordPathFor config record.goalId.asStr)
  let index ← readIndex config record.sessionId
  saveOver config record encoded existing index

/-! ## Opening -/

structure RecoveryReport where
  discardedPartialWrites : Nat
  adoptedOrphans : Nat
  prunedDangling : Nat
  deriving DecidableEq, Repr

/-- How many temporary files there were. -/
def discardTemporary (dir : Dir) : List FileName → FileM Text Nat
  | [] => return 0
  | .json _ :: rest => discardTemporary dir rest
  | .pending process ordinal :: rest => do
    FileM.call (.remove ⟨dir, .pending process ordinal⟩)
    let discarded ← discardTemporary dir rest
    return discarded + 1

def scanRecords : List FileName → Table String GoalRecord → FileM Text (Table String GoalRecord)
  | [], records => return records
  | .pending .. :: rest, records => scanRecords rest records
  | .json stem :: rest, records => do
    match ← readRecordSized config ⟨.goals, .json stem⟩ with
    | none => scanRecords rest records
    | some (record, _) => scanRecords rest (records.insert record.goalId.asStr record)

/-- The sessions that have an index, with those that were known before. -/
def scanIndexes : List FileName → List String → FileM Text (List String)
  | [], sessions => return sessions
  | .pending .. :: rest, sessions => scanIndexes rest sessions
  | .json stem :: rest, sessions => do
    match ← FileM.call (.read ⟨.sessions, .json stem⟩) with
    | none => throw (.io (config.pathText ⟨.sessions, .json stem⟩) "not found")
    | some text =>
      let index ← FileM.check (decodeIndex config ⟨.sessions, .json stem⟩ text)
      scanIndexes rest (sessions.insert index.sessionId)

/-- The highest ordinal that was generated, as far as the goals show. -/
def highWaterOf (session : String) (start : Nat) (goalIds : List String) : Nat :=
  (goalIds.filterMap (generatedGoalOrdinal session)).foldl max start

/-- Creation order; the identifier breaks ties. -/
abbrev CreatedBefore (left right : GoalRecord) : Prop :=
  left.createdAt.asMillis < right.createdAt.asMillis ∨
    (left.createdAt.asMillis = right.createdAt.asMillis ∧ left.goalId.asStr ≤ right.goalId.asStr)

/-- The records of a session that its index does not list. -/
def orphansOf (records : Table String GoalRecord) (session : String) (goalIds : List String) :
    List GoalRecord :=
  (records.values.filter fun record =>
    record.sessionId.asStr = session && decide (record.goalId.asStr ∉ goalIds)).insertionSort
      CreatedBefore

structure Repair where
  index : SessionIndex
  pruned : Nat
  adopted : Nat

def repairIndex (records : Table String GoalRecord) (session : String) (index : SessionIndex) :
    Repair :=
  let highWater := highWaterOf session index.goalIdHighWater index.goalIds
  let kept := index.goalIds.filter fun goalId => (records.lookup goalId).isSome
  let orphans := orphansOf records session kept
  let goalIds := kept ++ orphans.map (·.goalId.asStr)
  { index := ⟨goalIds, highWaterOf session highWater goalIds⟩
    pruned := index.goalIds.length - kept.length
    adopted := orphans.length }

/-- Is there anything to write? -/
def Repair.changed (repair : Repair) (index : SessionIndex) : Bool :=
  repair.pruned > 0 || repair.adopted > 0
    || repair.index.goalIdHighWater ≠ index.goalIdHighWater

/-- How many entries were pruned, and how many records adopted. -/
def repairSession (records : Table String GoalRecord) (session : String) :
    FileM Text (Nat × Nat) := do
  let sessionId ← FileM.check ((Identifier.new "session id" session).mapError fun e =>
    .corrupt (config.pathText (indexPathFor config session))
      (.invalid "session_id" (GoalEnvelope.identifierReason e)))
  let index ← readIndex config sessionId
  let repair := repairIndex records session index.toSessionIndex
  if index.schema ≠ sessionIndexSchemaVersion || repair.changed index.toSessionIndex then
    writeIndex config index.sessionId repair.index
    return (repair.pruned, repair.adopted)
  else
    return (repair.pruned, repair.adopted)

def repairSessions (records : Table String GoalRecord) :
    List String → RecoveryReport → FileM Text RecoveryReport
  | [], report => return report
  | session :: rest, report => do
    let counts ← repairSession config records session
    repairSessions records rest
      ⟨report.discardedPartialWrites, report.adoptedOrphans + counts.2,
        report.prunedDangling + counts.1⟩

/-- The first part of `recover`: temporary files are removed. -/
def discardPartialWrites : FileM Text Nat := do
  let goalFiles ← FileM.call (.readDir .goals)
  let discardedGoals ← discardTemporary .goals goalFiles
  let sessionFiles ← FileM.call (.readDir .sessions)
  let discardedSessions ← discardTemporary .sessions sessionFiles
  return discardedGoals + discardedSessions

/-- The second part: every index is compared with the records. -/
def rebuildIndexes (discarded : Nat) : FileM Text RecoveryReport := do
  let recordFiles ← FileM.call (.readDir .goals)
  let records ← scanRecords config recordFiles ∅
  let indexFiles ← FileM.call (.readDir .sessions)
  -- sessions whose records are gone are walked as well
  let sessions ← scanIndexes config indexFiles (records.values.map (·.sessionId.asStr)).dedup
  repairSessions config records (sessions.insertionSort (· ≤ ·)) ⟨discarded, 0, 0⟩

def recover : FileM Text RecoveryReport := do
  let discarded ← discardPartialWrites
  rebuildIndexes config discarded

/-! ## Runs -/

/-- Each happens under the lock of the store, and may stop after so many file operations. -/
inductive DiskAct where
  | save (record : GoalRecord) (stop : Option Nat)
  /-- A process opens the store. -/
  | start (process : Nat) (stop : Option Nat)

inductive DiskAnswer where
  | saved (result : Except StoreError Unit)
  | started (result : Except StoreError RecoveryReport)
  | stopped

variable (order : List FileName → List FileName)

def step (d : Disk Text) : DiskAct → DiskAnswer × Disk Text
  | .save record none =>
    let (result, after) := (save config record).run.runAll (Disk.exec config.codec.len order) d
    (.saved result, after)
  | .save record (some n) =>
    (.stopped, (save config record).run.cut (Disk.exec config.codec.len order) n d)
  | .start process none =>
    let (result, after) := (recover config).run.runAll (Disk.exec config.codec.len order)
      { d with process, sequence := 0 }
    (.started result, after)
  | .start process (some n) =>
    (.stopped, (recover config).run.cut (Disk.exec config.codec.len order) n
      { d with process, sequence := 0 })

end Programs

end FileStore

end GtaClaw.Goal
