import Mathlib.Data.List.DropRight
import GtaClaw.Lib.Except

/-!
# Text, its length and its clusters

A message is a list of characters and an offset counts characters. The source
counts bytes in its offsets, but only ever produces offsets of whole characters,
compares them with each other and with zero, and looks at single-byte
characters through them, so nothing depends on the difference. Where a byte
length is really meant it is `utf8Len`.

The cluster rules are those of the segmenter: which characters stay with the
one before them, and the even-odd rule for regional indicators.
-/

namespace GtaClaw.Channel

open Lib

abbrev Text := List Char

/-! ## Lengths -/

/-- Unit a destination counts its message length in. -/
inductive LengthUnit where
  | chars
  | utf16CodeUnits
  | bytes
  deriving DecidableEq, Repr

/-- `char::len_utf16`. -/
def utf16Len (c : Char) : Nat := if c.toNat ≤ 0xffff then 1 else 2

/-- `str::len`. -/
def utf8Len (text : Text) : Nat := (text.map Char.utf8Size).sum

def LengthUnit.measureChar : LengthUnit → Char → Nat
  | .chars, _ => 1
  | .utf16CodeUnits, c => utf16Len c
  | .bytes, c => c.utf8Size

def LengthUnit.measure : LengthUnit → Text → Nat
  | .chars, text => text.length
  | .utf16CodeUnits, text => (text.map utf16Len).sum
  | .bytes, text => utf8Len text

section

variable (unit : LengthUnit)
include unit

theorem LengthUnit.measure_eq (text : Text) :
    unit.measure text = (text.map unit.measureChar).sum := by
  cases unit with
  | chars =>
    show text.length = (text.map (fun _ => 1)).sum
    simp
  | utf16CodeUnits | bytes => rfl

@[simp] theorem LengthUnit.measure_nil : unit.measure [] = 0 := by rw [measure_eq]; rfl

@[simp] theorem LengthUnit.measure_append (a b : Text) :
    unit.measure (a ++ b) = unit.measure a + unit.measure b := by
  simp only [measure_eq, List.map_append, List.sum_append]

theorem LengthUnit.measure_cons (c : Char) (text : Text) :
    unit.measure (c :: text) = unit.measureChar c + unit.measure text := by
  simp only [measure_eq, List.map_cons, List.sum_cons]

theorem LengthUnit.measure_newline : unit.measure ['\n'] = 1 := by cases unit <;> decide

theorem LengthUnit.measure_take_le (text : Text) {m n : Nat} (h : m ≤ n) :
    unit.measure (text.take m) ≤ unit.measure (text.take n) := by
  obtain ⟨k, rfl⟩ := Nat.exists_eq_add_of_le h
  rw [List.take_add, measure_append]
  omega

theorem LengthUnit.measureChar_le_utf8 (c : Char) : unit.measureChar c ≤ c.utf8Size := by
  cases unit with
  | chars => exact c.utf8Size_pos
  | utf16CodeUnits =>
    show utf16Len c ≤ c.utf8Size
    unfold utf16Len
    by_cases h : c.toNat ≤ 0xffff
    · rw [if_pos h]
      exact c.utf8Size_pos
    -- a supplementary character takes four bytes
    have h4 : c.utf8Size = 4 := by
      unfold Char.utf8Size
      have hv : ∀ n : UInt32, n.toNat ≤ 0xffff → ¬ c.val ≤ n := fun n hn hle =>
        h ((UInt32.le_iff_toNat_le.mp hle).trans hn)
      rw [if_neg (hv _ (by decide)), if_neg (hv _ (by decide)), if_neg (hv _ (by decide))]
    rw [if_neg h, h4]
    decide
  | bytes => exact le_rfl

theorem LengthUnit.measure_le_utf8Len (text : Text) : unit.measure text ≤ utf8Len text := by
  rw [measure_eq]
  exact List.sum_le_sum (fun c _ => unit.measureChar_le_utf8 c)

end

/-- One destination's proven maximum outbound message length. -/
structure OutputLimit where
  max : Nat
  unit : LengthUnit
  /-- `NonZeroU32`. -/
  pos : 0 < max
  bounded : max < 2 ^ 32
  deriving DecidableEq

/-- Whether `text` is deliverable as exactly one message. -/
def OutputLimit.fits (limit : OutputLimit) (text : Text) : Bool :=
  utf8Len text ≤ limit.max || limit.unit.measure text ≤ limit.max

theorem OutputLimit.fits_iff (limit : OutputLimit) (text : Text) :
    limit.fits text = true ↔ limit.unit.measure text ≤ limit.max := by
  have := limit.unit.measure_le_utf8Len text
  simp only [fits, Bool.or_eq_true, decide_eq_true_eq]
  omega

/-! ## Whitespace -/

/-- `char::is_whitespace`, the Unicode `White_Space` property. -/
def isWhitespace (c : Char) : Bool :=
  let n := c.toNat
  (0x09 ≤ n && n ≤ 0x0d) || n == 0x20 || n == 0x85 || n == 0xa0 || n == 0x1680
    || (0x2000 ≤ n && n ≤ 0x200a) || n == 0x2028 || n == 0x2029 || n == 0x202f || n == 0x205f
    || n == 0x3000

theorem isWhitespace_of_isDigit {c : Char} (h : c.isDigit = true) : isWhitespace c = false := by
  have hrange : 48 ≤ c.toNat ∧ c.toNat ≤ 57 := Char.isDigit_iff_toNat.mp h
  simp only [isWhitespace, Bool.or_eq_false_iff, Bool.and_eq_false_iff, decide_eq_false_iff_not,
    beq_eq_false_iff_ne]
  omega

def trimStart (text : Text) : Text := text.dropWhile isWhitespace

def trim (text : Text) : Text := (trimStart text).rdropWhile isWhitespace

theorem trim_eq_self {text : Text} (hfirst : ∀ c ∈ text.head?, isWhitespace c = false)
    (hlast : ∀ c ∈ text.getLast?, isWhitespace c = false) : trim text = text := by
  have hstart : trimStart text = text := by
    cases text with
    | nil => rfl
    | cons c rest => exact List.dropWhile_cons_of_neg (by simp [hfirst c rfl])
  rw [trim, hstart, List.rdropWhile_eq_self_iff]
  intro hne
  simp [hlast _ (List.getLast?_eq_some_getLast hne)]

theorem mem_of_mem_trim {c : Char} {text : Text} (h : c ∈ trim text) : c ∈ text :=
  (List.dropWhile_suffix _).subset ((List.rdropWhile_prefix _ _).subset h)

/-- Removes exactly one line ending, preserving code indentation after it. -/
def stripOneNewline : Text → Text
  | '\r' :: '\n' :: rest => rest
  | '\n' :: rest => rest
  | text => text

/-! ## Clusters -/

/-- Zero-width joiner, which binds the characters on both of its sides. -/
def zeroWidthJoiner : Char := '\u200d'

/-- The code points `binds_to_previous` lists, as closed ranges. -/
def bindingRanges : List (Nat × Nat) :=
  [ -- combining diacritical marks
    (0x0300, 0x036f),
    -- Cyrillic combining marks
    (0x0483, 0x0489),
    -- Hebrew points and accents
    (0x0591, 0x05bd), (0x05bf, 0x05bf), (0x05c1, 0x05c2), (0x05c4, 0x05c5), (0x05c7, 0x05c7),
    -- Arabic marks
    (0x0610, 0x061a), (0x064b, 0x065f), (0x0670, 0x0670), (0x06d6, 0x06dc), (0x06df, 0x06e4),
    (0x06e7, 0x06e8), (0x06ea, 0x06ed),
    -- Thai vowel signs and tone marks
    (0x0e31, 0x0e31), (0x0e34, 0x0e3a), (0x0e47, 0x0e4e),
    -- conjoining Hangul V and T jamo, including the extended blocks
    (0x1160, 0x11ff), (0xd7b0, 0xd7c6), (0xd7cb, 0xd7fb),
    -- zero-width non-joiner and joiner
    (0x200c, 0x200d),
    -- combining diacritical marks, extended and supplement
    (0x1ab0, 0x1aff), (0x1dc0, 0x1dff),
    -- combining diacritical marks for symbols, including the keycap
    (0x20d0, 0x20f0),
    -- variation selectors and combining half marks
    (0xfe00, 0xfe0f), (0xfe20, 0xfe2f),
    -- emoji modifiers, the skin tones
    (0x1f3fb, 0x1f3ff),
    -- tag characters and the variation selector supplement
    (0xe0020, 0xe007f), (0xe0100, 0xe01ef) ]

/-- Whether a character must stay attached to the character before it. -/
def bindsToPrevious (c : Char) : Bool :=
  bindingRanges.any (fun range => range.1 ≤ c.toNat && c.toNat ≤ range.2)

def isRegionalIndicator (c : Char) : Bool := 0x1f1e6 ≤ c.toNat && c.toNat ≤ 0x1f1ff

/-- Whether a segment may end immediately before `next`. -/
def isClusterBoundary (previous : Option Char) (next : Char) (regionalRun : Nat) : Bool :=
  match previous with
  | none => true
  | some previous =>
    if previous = zeroWidthJoiner ∨ (previous = '\r' ∧ next = '\n') then false
    else if bindsToPrevious next then false
    else !(isRegionalIndicator next && regionalRun % 2 == 1)

/-- The regional indicators in a row, once `c` has been seen. -/
def nextRun (regionalRun : Nat) (c : Char) : Nat :=
  if isRegionalIndicator c then regionalRun + 1 else 0

end GtaClaw.Channel
