import GtaClaw.Channel.Text
import GtaClaw.Gateway.Events

/-!
# Identifiers and instants

The identifiers of the application ports are one family: text that is trimmed,
not empty, at most 128 bytes and free of control characters. A member is told
from the others by the kind its errors name. The validity is part of the value,
so an identifier that no port accepts cannot be built.
-/

namespace GtaClaw.Runtime

open Channel Gateway

/-! ## Identifiers -/

def maxIdentifierBytes : Nat := 128

structure IdentifierError where
  kind : String
  reason : String
  deriving DecidableEq, Repr

/-- `str::trim`. -/
def trimmed (value : String) : String := String.ofList (trim value.toList)

def parseIdentifier (kind value : String) : Except IdentifierError String :=
  let value := trimmed value
  if value.isEmpty then .error ⟨kind, "must not be empty"⟩
  else if value.utf8ByteSize > maxIdentifierBytes then .error ⟨kind, "is too long"⟩
  else if value.toList.any isControl then
    .error ⟨kind, "must not contain control characters"⟩
  else .ok value

/-- What begins with no whitespace still does when its end is trimmed. -/
theorem dropWhile_rdropWhile {text : Text} (h : ∀ c ∈ text.head?, isWhitespace c = false) :
    (text.rdropWhile isWhitespace).dropWhile isWhitespace = text.rdropWhile isWhitespace := by
  cases hr : text.rdropWhile isWhitespace with
  | nil => rfl
  | cons c rest =>
    obtain ⟨tail, ht⟩ := List.rdropWhile_prefix isWhitespace text
    rw [hr] at ht
    have hc : isWhitespace c = false := h c (by rw [← ht]; rfl)
    exact List.dropWhile_cons_of_neg (by rw [hc]; exact Bool.false_ne_true)

theorem trim_trim (text : Text) : trim (trim text) = trim text := by
  have hfirst : ∀ c ∈ (text.dropWhile isWhitespace).head?, isWhitespace c = false := by
    intro c hc
    have hnot := List.head?_dropWhile_not isWhitespace text
    rw [Option.mem_def.mp hc] at hnot
    exact hnot
  unfold trim trimStart
  rw [dropWhile_rdropWhile hfirst, List.rdropWhile_idempotent]

theorem trimmed_trimmed (value : String) : trimmed (trimmed value) = trimmed value := by
  unfold trimmed
  rw [String.toList_ofList, trim_trim]

theorem parseIdentifier_eq_ok {kind value stored : String}
    (h : parseIdentifier kind value = .ok stored) : stored = trimmed value := by
  unfold parseIdentifier at h
  dsimp only at h
  split at h
  · cases h
  split at h
  · cases h
  split at h
  · cases h
  · exact (Except.ok.inj h).symm

/-- What is accepted is accepted again, as it is. -/
theorem parseIdentifier_idem {kind value stored : String}
    (h : parseIdentifier kind value = .ok stored) : parseIdentifier kind stored = .ok stored := by
  have hstored : stored = trimmed value := parseIdentifier_eq_ok h
  unfold parseIdentifier at h ⊢
  rw [hstored, trimmed_trimmed]
  rw [hstored] at h
  exact h

/-- An identifier of one kind, as it is stored. -/
structure Identifier (kind : String) where
  asStr : String
  valid : parseIdentifier kind asStr = .ok asStr

theorem Identifier.ext {kind : String} {a b : Identifier kind} (h : a.asStr = b.asStr) : a = b := by
  cases a
  cases b
  cases h
  rfl

instance (kind : String) : DecidableEq (Identifier kind) := fun a b =>
  if h : a.asStr = b.asStr then isTrue (Identifier.ext h)
  else isFalse fun heq => h (congrArg _ heq)

def Identifier.new (kind value : String) : Except IdentifierError (Identifier kind) :=
  match h : parseIdentifier kind value with
  | .ok stored => .ok ⟨stored, parseIdentifier_idem h⟩
  | .error e => .error e

theorem Identifier.asStr_of_new {kind value : String} {id : Identifier kind}
    (h : Identifier.new kind value = .ok id) : id.asStr = trimmed value := by
  unfold Identifier.new at h
  split at h
  · rename_i hparse
    rw [← Except.ok.inj h]
    exact parseIdentifier_eq_ok hparse
  · cases h

abbrev ToolCallId := Identifier "tool call id"
abbrev ApprovalId := Identifier "approval id"
abbrev GoalId := Identifier "goal id"
abbrev WorkerId := Identifier "worker id"
abbrev LeaseId := Identifier "lease id"
/-- Of the domain crate, which has the same rules. -/
abbrev SessionId := Identifier "session id"

/-! ## Counters -/

/-- `u64::MAX`, which is also `usize::MAX`. -/
def u64Max : Nat := 2 ^ 64 - 1

/-- `u64::saturating_add`. -/
def saturatingAdd (a b : Nat) : Nat := min (a + b) u64Max

theorem saturatingAdd_of_le {a b : Nat} (h : a + b ≤ u64Max) : saturatingAdd a b = a + b :=
  Nat.min_eq_left h

/-- `u64::checked_add`. -/
def checkedAdd (a b : Nat) : Option Nat := if a + b ≤ u64Max then some (a + b) else none

theorem checkedAdd_eq_some {a b c : Nat} (h : checkedAdd a b = some c) :
    a + b ≤ u64Max ∧ c = a + b := by
  unfold checkedAdd at h
  split at h
  · rename_i hle
    exact ⟨hle, (Option.some.inj h).symm⟩
  · cases h

/-! ## Instants -/

/-- `Duration`, of which only the whole milliseconds are read. -/
structure Duration where
  asMillis : Nat
  deriving DecidableEq, Repr

/-- Milliseconds since the Unix epoch. -/
structure Timestamp where
  asMillis : Int64
  deriving DecidableEq

instance : LE Timestamp := ⟨fun a b => a.asMillis ≤ b.asMillis⟩

instance (a b : Timestamp) : Decidable (a ≤ b) :=
  inferInstanceAs (Decidable (a.asMillis ≤ b.asMillis))

/-- `none` if the sum is no `i64`. -/
def Timestamp.checkedAdd (t : Timestamp) (duration : Duration) : Option Timestamp :=
  let sum := t.asMillis.toInt + duration.asMillis
  if duration.asMillis < 2 ^ 63 ∧ sum < 2 ^ 63 then some ⟨Int64.ofInt sum⟩ else none

/-! ## Failures of ports -/

inductive PortError where
  | unavailable (message : String)
  | conflict (message : String)
  | notFound (message : String)
  | invalid (message : String)
  /-- The change was made, but it is not proven durable. -/
  | committedButNotDurable (message : String)
  | outcomeUnknown (message : String)
  | cancelled
  deriving DecidableEq, Repr

end GtaClaw.Runtime
