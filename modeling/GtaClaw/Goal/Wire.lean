import GtaClaw.Goal.Record

/-!
# Goals on disk

The envelope in which a goal is written, and what reading one back checks. Writing
checks nothing: a record that breaks one of the rules is written, and refused when it
is read. The others come back as they were.
-/

namespace GtaClaw.Goal

open GtaClaw.Runtime

structure ProgressEnvelope where
  index : Nat
  note : String
  recordedAtMillis : Int64
  compacted : Bool
  deriving DecidableEq

structure GoalEnvelope where
  schema : Nat
  goalId : String
  sessionId : String
  objective : String
  status : String
  createdAtMillis : Int64
  updatedAtMillis : Int64
  closedAtMillis : Option Int64
  compactedEntries : Nat
  revision : Nat
  progress : List ProgressEnvelope
  deriving DecidableEq

inductive WireError where
  | malformed (detail : String)
  | unsupportedSchema (expected found : Nat)
  | invalid (field reason : String)
  deriving DecidableEq, Repr

def WireError.display : WireError → String
  | .malformed detail => "malformed goal record: " ++ detail
  | .unsupportedSchema expected found =>
    "goal record schema " ++ toString found ++ " is not the supported schema " ++
      toString expected
  | .invalid field reason => "goal record field " ++ field ++ " is invalid: " ++ reason

def schemaVersion : Nat := 1

def statusFromLabel (label : String) : Option GoalStatus := GoalStatus.all.find? (·.label = label)

namespace GoalEnvelope

def ofProgress (entry : GoalProgress) : ProgressEnvelope :=
  ⟨entry.index, entry.note, entry.recordedAt.asMillis, entry.compacted⟩

/-- What `encode` serialises. -/
def ofRecord (record : GoalRecord) : GoalEnvelope where
  schema := schemaVersion
  goalId := record.goalId.asStr
  sessionId := record.sessionId.asStr
  objective := record.objective
  status := record.status.label
  createdAtMillis := record.createdAt.asMillis
  updatedAtMillis := record.updatedAt.asMillis
  closedAtMillis := record.closedAt.map (·.asMillis)
  compactedEntries := record.compactedEntries
  revision := record.revision
  progress := record.progress.map ofProgress

def toProgress : Option Nat → List ProgressEnvelope → Except WireError (List GoalProgress)
  | _, [] => .ok []
  | previous, entry :: rest =>
    if previous.any (entry.index ≤ ·) then
      .error (.invalid "progress" "indices must strictly increase")
    else if (trimmed entry.note).isEmpty then
      .error (.invalid "progress" "a note must not be blank")
    else do
      let entries ← toProgress (some entry.index) rest
      .ok (⟨entry.index, entry.note, ⟨entry.recordedAtMillis⟩, entry.compacted⟩ :: entries)

/-- The text of an `IdentifierError`. -/
def identifierReason (e : IdentifierError) : String := "invalid " ++ e.kind ++ ": " ++ e.reason

/-- What `decode` makes of an envelope. -/
def toRecord (envelope : GoalEnvelope) : Except WireError GoalRecord :=
  if envelope.schema ≠ schemaVersion then
    .error (.unsupportedSchema schemaVersion envelope.schema)
  else
    match Identifier.new "goal id" envelope.goalId with
    | .error e => .error (.invalid "goal_id" (identifierReason e))
    | .ok goalId =>
    match Identifier.new "session id" envelope.sessionId with
    | .error e => .error (.invalid "session_id" (identifierReason e))
    | .ok sessionId =>
    if (trimmed envelope.objective).isEmpty then .error (.invalid "objective" "must not be blank")
    else if envelope.revision = 0 then .error (.invalid "revision" "must be at least 1")
    else
      match statusFromLabel envelope.status with
      | none => .error (.invalid "status" ("unknown status " ++ envelope.status))
      | some status =>
      match status.isClosed, envelope.closedAtMillis.isSome with
      | true, false => .error (.invalid "closed_at_millis" "a closed goal must carry one")
      | false, true => .error (.invalid "closed_at_millis" "an active goal must not carry one")
      | _, _ =>
      match toProgress none envelope.progress with
      | .error e => .error e
      | .ok progress =>
        .ok
          { goalId := goalId
            sessionId := sessionId
            objective := envelope.objective
            status := status
            progress := progress
            createdAt := ⟨envelope.createdAtMillis⟩
            updatedAt := ⟨envelope.updatedAtMillis⟩
            closedAt := envelope.closedAtMillis.map fun millis => ⟨millis⟩
            compactedEntries := envelope.compactedEntries
            revision := envelope.revision }

end GoalEnvelope

/-! ## What can be read back -/

def Increasing : Option Nat → List GoalProgress → Prop
  | _, [] => True
  | previous, entry :: rest =>
    (∀ i ∈ previous, i < entry.index) ∧ Increasing (some entry.index) rest

/-- What a reader checks of a record. -/
structure GoalRecord.WellFormed (record : GoalRecord) : Prop where
  objective : (trimmed record.objective).isEmpty = false
  revision : record.revision ≠ 0
  closedAt : record.closedAt.isSome = record.status.isClosed
  increasing : Increasing none record.progress
  notes : ∀ entry ∈ record.progress, (trimmed entry.note).isEmpty = false

theorem statusFromLabel_label (status : GoalStatus) : statusFromLabel status.label = some status := by
  cases status <;> decide

theorem Identifier.new_asStr {kind : String} (id : Identifier kind) :
    Identifier.new kind id.asStr = .ok id := by
  unfold Identifier.new
  split
  · rename_i stored hparse
    rw [id.valid] at hparse
    cases hparse
    rfl
  · rename_i e hparse
    rw [id.valid] at hparse
    cases hparse

open GoalEnvelope

theorem toProgress_ofProgress : ∀ (previous : Option Nat) (progress : List GoalProgress),
    Increasing previous progress → (∀ entry ∈ progress, (trimmed entry.note).isEmpty = false) →
    toProgress previous (progress.map ofProgress) = .ok progress
  | _, [], _, _ => rfl
  | previous, entry :: rest, hincreasing, hnotes => by
    have hrest := toProgress_ofProgress (some entry.index) rest hincreasing.2
      (List.forall_mem_cons.mp hnotes).2
    have hindex : previous.any (entry.index ≤ ·) = false := by
      cases previous with
      | none => rfl
      | some i => exact decide_eq_false (not_le.mpr (hincreasing.1 i rfl))
    have hnote := hnotes entry List.mem_cons_self
    unfold toProgress
    rw [List.map_cons]
    dsimp only [ofProgress]
    rw [if_neg (by rw [hindex]; exact Bool.false_ne_true),
      if_neg (by rw [hnote]; exact Bool.false_ne_true)]
    rw [hrest]
    rfl

/-- **What a reader checks is all that matters**: such a record is read back as it was. -/
theorem toRecord_ofRecord {record : GoalRecord} (h : record.WellFormed) :
    (ofRecord record).toRecord = .ok record := by
  have hprogress := toProgress_ofProgress none record.progress h.increasing h.notes
  have hsome : (record.closedAt.map (·.asMillis)).isSome = record.status.isClosed := by
    rw [Option.isSome_map]
    exact h.closedAt
  have hclosed : (record.closedAt.map (·.asMillis)).map (fun millis => (⟨millis⟩ : Timestamp))
      = record.closedAt := by
    rw [Option.map_map]
    exact Option.map_id'
  unfold toRecord ofRecord
  rw [if_neg (fun hne => hne rfl), Identifier.new_asStr, Identifier.new_asStr]
  dsimp only
  rw [if_neg (by rw [h.objective]; exact Bool.false_ne_true), if_neg h.revision,
    statusFromLabel_label]
  dsimp only
  rw [hsome, hprogress, hclosed]
  cases record.status.isClosed with
  | true => rfl
  | false => rfl

end GtaClaw.Goal
