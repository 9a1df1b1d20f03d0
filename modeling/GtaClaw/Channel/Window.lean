import GtaClaw.Channel.Fence

/-!
# Where a segment ends

One bounded scan of the remaining text finds the last cluster-safe offset, the
last newline and the last space that still fit the budget; `choose_break` picks
one of them, and `place_split` moves the choice in front of a fence it would cut
when there is something in front of that fence.

Whatever is picked satisfies `Cut`: it is past the start, its prefix fits the
budget, and it does not fall inside a cluster of the scanned text.
-/

namespace GtaClaw.Channel

open Lib Option List

/-- Everything one bounded scan of the remaining text can decide. -/
structure Window where
  /-- The whole text fits in the budget. -/
  fits : Bool := false
  /-- Largest cluster-safe offset whose text before it fits the budget; 0 means none. -/
  ceiling : Nat := 0
  /-- Last newline inside the window, with the length of the text before it. -/
  lastNewline : Option (Nat × Nat) := none
  /-- Last space inside the window, with the length of the text before it. -/
  lastSpace : Option (Nat × Nat) := none
  deriving DecidableEq

/-- Where the character loop of `scan_window` stands. -/
structure Scan where
  window : Window := {}
  offset : Nat := 0
  units : Nat := 0
  previous : Option Char := none
  regionalRun : Nat := 0

/-- The window once the boundary in front of `c` has been seen. -/
def Scan.mark (s : Scan) (c : Char) : Window :=
  if s.offset > 0 ∧ isClusterBoundary s.previous c s.regionalRun = true then
    { s.window with
      ceiling := s.offset
      lastNewline := if c = '\n' then some (s.offset, s.units) else s.window.lastNewline
      lastSpace := if c = ' ' then some (s.offset, s.units) else s.window.lastSpace }
  else s.window

def Scan.see (unit : LengthUnit) (s : Scan) (c : Char) : Scan where
  window := s.mark c
  offset := s.offset + 1
  units := s.units + unit.measureChar c
  previous := some c
  regionalRun := nextRun s.regionalRun c

/-- The character loop of `scan_window`. -/
def scanLoop (unit : LengthUnit) (budget : Nat) : Scan → Text → Window
  | s, [] =>
    if s.units ≤ budget then { s.window with fits := true, ceiling := s.offset } else s.window
  | s, c :: rest =>
    if s.units > budget then s.window else scanLoop unit budget (s.see unit c) rest

variable (text : Text)

def scanWindow (unit : LengthUnit) (budget : Nat) : Window := scanLoop unit budget {} text

/-- The newline, then space, then hard cut preference. -/
def chooseBreak (window : Window) (budget : Nat) : Nat :=
  match window.lastNewline.filter (fun (_, units) => units * 2 ≥ budget) with
  | some (offset, _) => offset
  | none =>
    match window.lastSpace.filter (fun (_, units) => units * 10 ≥ budget * 3) with
    | some (offset, _) => offset
    | none => window.ceiling

/-- Where the line ending in front of the line at `lineStart` begins. -/
def lineEndingBefore : Nat → Option Nat
  | 0 => none
  | newline + 1 =>
    if text[newline]? = some '\n' then
      if newline > 0 ∧ text[newline - 1]? = some '\r' then some (newline - 1) else some newline
    else none

/-- The cut that keeps the whole block in the next segment. It exists only when the fence starts
inside this segment and something precedes it. -/
def relocation (opened : OpenFence) : Option Nat :=
  (opened.lineStart.bind (lineEndingBefore text)).filter (· > 0)

/-- Chooses the cut offset and reports the fence left open at it, if any. -/
def placeSplit (window : Window) (budget : Nat) (carry : Option Fence) : Nat × Option Fence :=
  let split := chooseBreak window budget
  match fenceOpenAt text split carry with
  | none => (split, none)
  | some opened =>
    match relocation text opened with
    | some lineEndingStart => (lineEndingStart, none)
    | none => (split, some opened.fence)

/-! ## What the scan finds -/

/-- Whether the cluster rule, run over all of `text`, allows a break at `offset`. -/
def boundaryAt (offset : Nat) : Bool :=
  match text[offset]? with
  | none => true
  | some c => isClusterBoundary (text.take offset).getLast? c ((text.take offset).foldl nextRun 0)

theorem boundaryAt_junction (before rest : Text) (c : Char) :
    boundaryAt (before ++ c :: rest) before.length
      = isClusterBoundary before.getLast? c (before.foldl nextRun 0) := by
  simp [boundaryAt]

/-- An offset a segment of `budget` units may end at. -/
structure Cut (text : Text) (unit : LengthUnit) (budget offset : Nat) : Prop where
  pos : 0 < offset
  le : offset ≤ text.length
  fits : unit.measure (text.take offset) ≤ budget
  boundary : boundaryAt text offset = true

/-- Every offset the window holds is a cut. -/
structure Window.Sound (w : Window) (text : Text) (unit : LengthUnit) (budget : Nat) : Prop where
  ceiling : w.ceiling ≠ 0 → Cut text unit budget w.ceiling
  newline : ∀ o u, w.lastNewline = some (o, u) → Cut text unit budget o
  space : ∀ o u, w.lastSpace = some (o, u) → Cut text unit budget o

/-- The scan has read `seen`. -/
structure Scan.Read (s : Scan) (unit : LengthUnit) (seen : Text) : Prop where
  offset : s.offset = seen.length
  units : s.units = unit.measure seen
  previous : s.previous = seen.getLast?
  regionalRun : s.regionalRun = seen.foldl nextRun 0

variable {unit : LengthUnit} {text : Text} {budget : Nat} {carry closing : Option Fence}

theorem Scan.Read.see {s : Scan} {seen : Text} (h : s.Read unit seen)
    (c : Char) : (s.see unit c).Read unit (seen ++ [c]) where
  offset := by rw [Scan.see, h.offset, length_append]; rfl
  units := by rw [Scan.see, h.units, LengthUnit.measure_append, LengthUnit.measure_cons]; simp
  previous := by rw [Scan.see, getLast?_concat]
  regionalRun := by rw [Scan.see, h.regionalRun, foldl_append]; rfl

theorem Scan.mark_sound {s : Scan} {seen rest : Text} {c : Char}
    (hr : s.Read unit seen) (hb : s.units ≤ budget)
    (hw : s.window.Sound (seen ++ c :: rest) unit budget) :
    (s.mark c).Sound (seen ++ c :: rest) unit budget := by
  unfold Scan.mark
  split
  · rename_i hmark
    have hcut : Cut (seen ++ c :: rest) unit budget s.offset := by
      refine ⟨hmark.1, ?_, ?_, ?_⟩
      · rw [hr.offset]; simp
      · rw [hr.offset, take_left, ← hr.units]; exact hb
      · rw [hr.offset, boundaryAt_junction, ← hr.previous, ← hr.regionalRun]
        exact hmark.2
    have hlast : ∀ mark(old : Option (Nat × Nat)),
        (∀ o u, old = some (o, u) → Cut (seen ++ c :: rest) unit budget o) →
        ∀ o u, (if c = mark then some (s.offset, s.units) else old) = some (o, u) →
          Cut (seen ++ c :: rest) unit budget o := by
      intro mark old hold o u ho
      split at ho
      · obtain ⟨rfl, _⟩ := Prod.mk.inj (some.inj ho)
        exact hcut
      · exact hold o u ho
    exact ⟨fun _ => hcut, hlast '\n' _ hw.newline, hlast ' ' _ hw.space⟩
  · exact hw

theorem Scan.mark_fits (s : Scan) (c : Char) : (s.mark c).fits = s.window.fits := by
  unfold Scan.mark
  split <;> rfl

/-- **The scan is sound**, and it reports a fit exactly when the text is that short. -/
theorem scanLoop_sound (unit : LengthUnit) (budget : Nat) : ∀ rest seen s,
    s.Read unit seen → s.window.Sound (seen ++ rest) unit budget → s.window.fits = false →
    (scanLoop unit budget s rest).Sound (seen ++ rest) unit budget
      ∧ ((scanLoop unit budget s rest).fits = true ↔ unit.measure (seen ++ rest) ≤ budget)
  | [], seen, s, hr, hw, hf => by
    rw [scanLoop, append_nil] at *
    split_ifs with hu
    · refine ⟨⟨fun hne => ?_, hw.newline, hw.space⟩, ?_⟩
      · refine ⟨Nat.pos_of_ne_zero hne, by rw [hr.offset], ?_, ?_⟩
        · rw [hr.offset, take_length, ← hr.units]; exact hu
        · rw [boundaryAt, hr.offset, getElem?_eq_none le_rfl]
      · rw [← hr.units]; simp [hu]
    · rw [hf, ← hr.units]
      exact ⟨hw, by simp [hu]⟩
  | c :: rest, seen, s, hr, hw, hf => by
    rw [scanLoop]
    split_ifs with hu
    · rw [hf]
      refine ⟨hw, ?_⟩
      rw [LengthUnit.measure_append, ← hr.units]
      simp only [Bool.false_eq_true, false_iff]
      omega
    · have := scanLoop_sound unit budget rest (seen ++ [c]) (s.see unit c) (hr.see c)
        (by rw [append_assoc]; exact Scan.mark_sound hr (by omega) hw)
        (by rw [Scan.see, Scan.mark_fits, hf])
      rwa [append_assoc] at this

theorem scanWindow_sound (text : Text) (unit : LengthUnit) (budget : Nat) :
    (scanWindow text unit budget).Sound text unit budget
      ∧ ((scanWindow text unit budget).fits = true ↔ unit.measure text ≤ budget) := by
  refine scanLoop_sound unit budget text [] {} ⟨rfl, ?_, rfl, rfl⟩ ⟨?_, ?_, ?_⟩ rfl
  · exact unit.measure_nil.symm
  · exact fun h => absurd rfl h
  · exact by simp
  · exact by simp

theorem chooseBreak_cut {w : Window} (hw : w.Sound text unit budget) (hc : w.ceiling ≠ 0) :
    Cut text unit budget (chooseBreak w budget) := by
  unfold chooseBreak
  split
  · rename_i o u h
    exact hw.newline o u (eq_some_of_filter_eq_some h)
  split
  · rename_i o u h
    exact hw.space o u (eq_some_of_filter_eq_some h)
  · exact hw.ceiling hc

/-! ## What the placement does -/

theorem lineEndingBefore_spec {lineStart e : Nat} (h : lineEndingBefore text lineStart = some e) :
    (lineStart = e + 1 ∧ text[e]? = some '\n' ∧ (e = 0 ∨ text[e - 1]? ≠ some '\r'))
      ∨ (lineStart = e + 2 ∧ text[e]? = some '\r' ∧ text[e + 1]? = some '\n') := by
  cases lineStart with
  | zero => cases h
  | succ newline =>
    rw [lineEndingBefore] at h
    split at h
    · rename_i hn
      split at h
      · rename_i hr
        obtain rfl := some.inj h
        refine Or.inr ⟨by omega, hr.2, ?_⟩
        rw [Nat.sub_add_cancel hr.1]
        exact hn
      · rename_i hr
        obtain rfl := some.inj h
        refine Or.inl ⟨rfl, hn, ?_⟩
        by_cases hz : newline = 0
        · exact Or.inl hz
        · exact Or.inr (fun hcr => hr ⟨Nat.pos_of_ne_zero hz, hcr⟩)
    · cases h

theorem lineEndingBefore_drop {lineStart e : Nat} (h : lineEndingBefore text lineStart = some e) :
    ∃ cr, (cr = [] ∨ cr = ['\r']) ∧ text.drop e = cr ++ '\n' :: text.drop lineStart := by
  rcases lineEndingBefore_spec h with ⟨rfl, hn, _⟩ | ⟨rfl, hr, hn⟩
  · obtain ⟨hlt, hc⟩ := List.getElem?_eq_some_iff.mp hn
    exact ⟨[], .inl rfl, by rw [drop_eq_getElem_cons hlt, hc]; rfl⟩
  · obtain ⟨hlt, hc⟩ := List.getElem?_eq_some_iff.mp hr
    obtain ⟨hlt', hc'⟩ := List.getElem?_eq_some_iff.mp hn
    exact ⟨['\r'], .inr rfl, by rw [drop_eq_getElem_cons hlt, hc, drop_eq_getElem_cons hlt', hc']; rfl⟩

theorem relocation_spec {opened : OpenFence} {e : Nat}
    (h : relocation text opened = some e) : 0 < e ∧ ∃ lineStart,
      opened.lineStart = some lineStart ∧ lineEndingBefore text lineStart = some e := by
  obtain ⟨hb, hpos⟩ := filter_eq_some_iff.mp h
  obtain ⟨lineStart, hl, he⟩ := bind_eq_some_iff.mp hb
  exact ⟨of_decide_eq_true hpos, lineStart, hl, he⟩

/-- What a placement can be: the break as chosen, with the fence that is open there, or the line
ending in front of a fence that was opened before the break. -/
theorem placeSplit_cases {w : Window}
    {split : Nat} (h : placeSplit text w budget carry = (split, closing)) :
    (split = chooseBreak w budget
      ∧ closing = (fenceOpenAt text split carry).map OpenFence.fence
      ∧ ∀ opened, fenceOpenAt text split carry = some opened → relocation text opened = none)
    ∨ ∃ opened, fenceOpenAt text (chooseBreak w budget) carry = some opened
      ∧ relocation text opened = some split ∧ closing = none := by
  unfold placeSplit at h
  dsimp only at h
  split at h
  · rename_i ho
    cases h
    exact Or.inl ⟨rfl, by rw [ho]; rfl, by simp [ho]⟩
  rename_i opened ho
  split at h
  · rename_i hr
    cases h
    exact Or.inr ⟨opened, ho, hr, rfl⟩
  · rename_i hr
    cases h
    exact Or.inl ⟨rfl, by rw [ho]; rfl, by simpa [ho] using hr⟩

/-- **A placement leaves something in front of it, and that fits the budget.** -/
theorem placeSplit_fits {split : Nat} (hc : (scanWindow text unit budget).ceiling ≠ 0)
    (h : placeSplit text (scanWindow text unit budget) budget carry = (split, closing)) :
    0 < split ∧ split ≤ text.length ∧ unit.measure (text.take split) ≤ budget := by
  have hcut := chooseBreak_cut (scanWindow_sound text unit budget).1 hc
  rcases placeSplit_cases h with ⟨rfl, _, _⟩ | ⟨opened, ho, hr, _⟩
  · exact ⟨hcut.pos, hcut.le, hcut.fits⟩
  obtain ⟨hpos, lineStart, hl, he⟩ := relocation_spec hr
  have h1 := (fenceOpenAt_opened ho hl).1
  have h2 : split < lineStart := by rcases lineEndingBefore_spec he with ⟨h, _⟩ | ⟨h, _⟩ <;> omega
  have h3 := hcut.le
  exact ⟨hpos, by omega, (unit.measure_take_le text (by omega)).trans hcut.fits⟩

end GtaClaw.Channel
