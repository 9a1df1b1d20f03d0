import Mathlib.Tactic

/-!
# Domain names

A name is held as its decoded labels, the root excluded. The only ways to build
one go through `validate`, so a `Name` here carries the proof that it passed:
no label is empty or longer than 63 bytes, and the uncompressed encoding is at
most 255 bytes.

Two names are equal when their labels are, byte for byte up to ASCII case. That
relation is the equality of `foldCase`, which is the form the proofs use.
-/

namespace GtaClaw.Discovery

abbrev Label := List UInt8

/-- Every way a DNS-SD encode or decode can fail. -/
inductive DnsSdError where
  | emptyLabel
  | labelTooLong (length : Nat)
  | nameTooLong (length : Nat)
  | badEscape
  | characterStringTooLong (length : Nat)
  | emptyTxtRdata
  | truncated
  | trailingBytes
  | messageTooLarge (actual limit : Nat)
  | impossibleSectionCounts (questions records available : Nat)
  | badPointer
  | compressionPointerLimit (limit : Nat)
  | decodeWorkLimit (limit : Nat)
  | badRdata (recordType : UInt16)
  | sectionTooLarge (length : Nat)
  deriving DecidableEq, Repr

def maxLabelBytes : Nat := 63

/-- Maximum length in bytes of an encoded domain name, including the root byte. -/
def maxNameBytes : Nat := 255

/-- The bytes a name occupies when encoded uncompressed. -/
def encodedLen (labels : List Label) : Nat := (labels.map (fun label => label.length + 1)).sum + 1

/-- The label checks of `validate`, in label order. -/
def validateLabels : List Label → Except DnsSdError Unit
  | [] => .ok ()
  | label :: rest =>
    if label.isEmpty then .error .emptyLabel
    else if label.length > maxLabelBytes then .error (.labelTooLong label.length)
    else validateLabels rest

def validate (labels : List Label) : Except DnsSdError Unit :=
  match validateLabels labels with
  | .error e => .error e
  | .ok () =>
    if encodedLen labels > maxNameBytes then .error (.nameTooLong (encodedLen labels))
    else .ok ()

/-- A domain name held as its decoded labels, root exclusive. -/
structure Name where
  labels : List Label
  /-- No constructor skips the length checks. -/
  valid : validate labels = .ok ()

def Name.fromLabels (labels : List Label) : Except DnsSdError Name :=
  match h : validate labels with
  | .error e => .error e
  | .ok () => .ok ⟨labels, h⟩

/-- `u8::to_ascii_lowercase`. -/
def toAsciiLowercase (b : UInt8) : UInt8 := if 65 ≤ b ∧ b ≤ 90 then b + 32 else b

/-- `u8::eq_ignore_ascii_case`. -/
def eqIgnoreAsciiCase (a b : UInt8) : Bool := toAsciiLowercase a == toAsciiLowercase b

def labelsEqual (left right : Label) : Bool :=
  left.length == right.length && (left.zip right).all (fun p => eqIgnoreAsciiCase p.1 p.2)

/-- Name equality, ASCII case-insensitive and label by label. -/
def Name.eq (left right : Name) : Bool :=
  left.labels.length == right.labels.length
    && (left.labels.zip right.labels).all (fun p => labelsEqual p.1 p.2)

instance : BEq Name := ⟨Name.eq⟩

/-! ## What `validate` accepts -/

variable {labels : List Label}

theorem validateLabels_ok :
    validateLabels labels = .ok () ↔ ∀ label ∈ labels, label ≠ [] ∧ label.length ≤ 63 := by
  induction labels with
  | nil => simp [validateLabels]
  | cons label rest ih =>
    rw [validateLabels, List.forall_mem_cons]
    by_cases hnil : label = []
    · subst hnil; simp
    rw [if_neg (by simpa using hnil)]
    by_cases hlen : label.length ≤ 63
    · rw [if_neg (show ¬ label.length > maxLabelBytes from not_lt.mpr hlen), ih]
      exact ⟨fun hr => ⟨⟨hnil, hlen⟩, hr⟩, fun hr => hr.2⟩
    · rw [if_pos (show label.length > maxLabelBytes from Nat.lt_of_not_le hlen)]
      exact ⟨fun h => absurd h (by simp), fun h => absurd h.1.2 hlen⟩

theorem validate_ok :
    validate labels = .ok () ↔
      (∀ label ∈ labels, label ≠ [] ∧ label.length ≤ 63) ∧ encodedLen labels ≤ 255 := by
  rw [← validateLabels_ok, validate]
  cases h : validateLabels labels with
  | error e => simp
  | ok u =>
    by_cases hlen : encodedLen labels ≤ 255
    · rw [if_neg (show ¬ encodedLen labels > maxNameBytes from not_lt.mpr hlen)]
      simp [hlen]
    · rw [if_pos (show encodedLen labels > maxNameBytes from Nat.lt_of_not_le hlen)]
      simp [hlen]

theorem Name.labels_valid (n : Name) : ∀ label ∈ n.labels, label ≠ [] ∧ label.length ≤ 63 :=
  (validate_ok.mp n.valid).1

theorem Name.encodedLen_le (n : Name) : encodedLen n.labels ≤ 255 := (validate_ok.mp n.valid).2

theorem Name.fromLabels_of_valid (h : validate labels = .ok ()) :
    Name.fromLabels labels = .ok ⟨labels, h⟩ := by
  unfold Name.fromLabels
  split
  · rename_i e he; rw [h] at he; cases he
  · rfl

/-! ## Equality up to case -/

/-- The labels with every ASCII letter lower-cased. -/
def foldCase (labels : List Label) : List Label := labels.map (·.map toAsciiLowercase)

theorem zip_all_map_eq {α β : Type} [BEq β] [LawfulBEq β] (f : α → β) :
    ∀ l r : List α, (l.length == r.length && (l.zip r).all (fun p => f p.1 == f p.2)) = true ↔
      l.map f = r.map f
  | [], [] => by simp
  | [], _ :: _ => by simp
  | _ :: _, [] => by simp
  | a :: l, b :: r => by
    rw [List.map_cons, List.map_cons, List.cons.injEq, ← zip_all_map_eq f l r]
    simp [and_left_comm]

theorem labelsEqual_eq (left right : Label) :
    labelsEqual left right
      = (left.map toAsciiLowercase == right.map toAsciiLowercase) := by
  rw [Bool.eq_iff_iff, beq_iff_eq]
  exact zip_all_map_eq toAsciiLowercase left right

/-- **Name equality is equality of the case-folded labels.** -/
theorem Name.beq_iff (left right : Name) :
    (left == right) = true ↔ foldCase left.labels = foldCase right.labels := by
  show Name.eq left right = true ↔ _
  unfold Name.eq foldCase
  simp only [labelsEqual_eq]
  exact zip_all_map_eq _ _ _

end GtaClaw.Discovery
