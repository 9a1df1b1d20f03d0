import GtaClaw.Lib.Lines
import GtaClaw.Lib.Loop
import GtaClaw.Channel.Text

/-!
# Code fences

A fence is recognised line by line: a line of three or more backticks or tildes
opens one, and a line of at least as many of the same character closes it. What
`opening_fence` returns always has such a run as its marker, so the run is a
field of `Fence`.

`fence_open_at` scans whole lines up to an offset. It decides an opening line by
all of the line, also the part behind the offset, but lets a line close a fence
only when the line ends at or before the offset.
-/

namespace GtaClaw.Channel

open Lib Option
open List hiding after

def backtick : Char := '\x60'

def tilde : Char := '~'

/-- Three or more of one fence character. -/
def IsMarker (marker : Text) : Prop :=
  3 ≤ marker.length ∧ ((∀ c ∈ marker, c = backtick) ∨ ∀ c ∈ marker, c = tilde)

/-- One code fence, taken from the text that opened it. -/
structure Fence where
  marker : Text
  info : Text
  /-- The marker is a run of one fence character. -/
  run : IsMarker marker
  deriving DecidableEq

/-- The line a segment starts with when it continues this fence. -/
def Fence.openingLine (fence : Fence) : Text := fence.marker ++ fence.info

def Fence.reopenUnits (fence : Fence) (unit : LengthUnit) : Nat :=
  unit.measure fence.marker + unit.measure fence.info + 1

def Fence.closeUnits (fence : Fence) (unit : LengthUnit) : Nat := unit.measure fence.marker + 1

theorem take_run_mem {c : Char} {content : Text} {x : Char}
    (h : x ∈ content.take (content.length - (content.dropWhile (· == c)).length)) : x = c := by
  have hrun : content.take (content.length - (content.dropWhile (· == c)).length)
      = content.takeWhile (· == c) :=
    append_cancel_right ((suffix_iff_eq_append.mp (dropWhile_suffix _)).trans
      takeWhile_append_dropWhile.symm)
  rw [hrun] at h
  have hp := mem_takeWhile_imp h
  exact beq_iff_eq.mp hp

theorem isMarker_take {c : Char} {content : Text} (hc : c = backtick ∨ c = tilde)
    (h : ¬ content.length - (content.dropWhile (· == c)).length < 3) :
    IsMarker (content.take (content.length - (content.dropWhile (· == c)).length)) := by
  refine ⟨by rw [length_take]; omega, ?_⟩
  rcases hc with rfl | rfl
  · exact Or.inl (fun x hx => take_run_mem hx)
  · exact Or.inr (fun x hx => take_run_mem hx)

/-- Parses a line that opens a fenced code block: three or more backticks or tildes, indented by
at most three spaces. -/
def openingFence (line : Text) : Option Fence :=
  let line := line.rdropWhile (· == '\r')
  let content := line.dropWhile (· == ' ')
  -- four or more leading spaces is an indented code block, not a fence
  if line.length - content.length > 3 then none
  else
    match content.head? with
    | none => none
    | some character =>
      if hc : character = backtick ∨ character = tilde then
        let rest := content.dropWhile (· == character)
        let run := content.length - rest.length
        if h : run < 3 then none
        else
          let info := trim rest
          -- a backtick fence may not carry a backtick in its info string
          if character = backtick ∧ info.contains backtick then none
          else some ⟨content.take run, info, isMarker_take hc h⟩
      else none

/-- Whether a line closes a fence opened with `marker`. -/
def closesFence (line marker : Text) : Bool :=
  let line := line.rdropWhile (· == '\r')
  let content := line.dropWhile (· == ' ')
  if line.length - content.length > 3 then false
  else
    match marker.head? with
    | none => false
    | some character =>
      let rest := content.dropWhile (· == character)
      decide (content.length - rest.length ≥ marker.length) && (trim rest).isEmpty

/-- A fence that is open at some offset, and where it was opened. -/
structure OpenFence where
  fence : Fence
  /-- `none` when the fence was inherited from a previous segment. -/
  lineStart : Option Nat
  deriving DecidableEq

/-- Where the scan of `fence_open_at` stands. -/
structure FenceScan where
  opened : Option OpenFence
  lineStart : Nat

def fenceOpenPass (text : Text) (offset : Nat) (s : FenceScan) : FenceScan ⊕ Option OpenFence :=
  if s.lineStart < offset then
    let line := firstLine '\n' (text.drop s.lineStart)
    let lineEnd := s.lineStart + line.length
    let opened :=
      match s.opened with
      | none => (openingFence line).map (fun fence => ⟨fence, some s.lineStart⟩)
      | some state =>
        if lineEnd ≤ offset && closesFence line state.fence.marker then none else some state
    .inl ⟨opened, lineEnd + 1⟩
  else .inr s.opened

def fenceOpenLoop (text : Text) (offset : Nat) : Loop FenceScan (Option OpenFence) where
  body := fenceOpenPass text offset
  measure s := offset - s.lineStart
  decreases := by
    intro s s' h
    unfold fenceOpenPass at h
    split at h
    · obtain rfl := Sum.inl.inj h
      dsimp only
      omega
    · cases h

/-- The fence still open at `offset`, scanning whole lines. -/
def fenceOpenAt (text : Text) (offset : Nat) (carry : Option Fence) : Option OpenFence :=
  (fenceOpenLoop text offset).run ⟨carry.map (fun fence => ⟨fence, none⟩), 0⟩

/-! ## Where the open fence began -/

variable {offset : Nat} {text : Text}

theorem fenceOpenPass_inr {s : FenceScan} {r : Option OpenFence}
    (h : fenceOpenPass text offset s = .inr r) : ¬ s.lineStart < offset ∧ r = s.opened := by
  unfold fenceOpenPass at h
  by_cases hlt : s.lineStart < offset
  · rw [if_pos hlt] at h; cases h
  · rw [if_neg hlt] at h
    exact ⟨hlt, (Sum.inr.inj h).symm⟩

/-- What holds of the carried fence and of every fence that a line opens holds of the open one. -/
theorem fenceOpenAt_inv {P : OpenFence → Prop} {carry : Option Fence}
    (hcarry : ∀ fence, carry = some fence → P ⟨fence, none⟩) (hline : ∀ l fence, l < offset →
      openingFence (firstLine '\n' (text.drop l)) = some fence → P ⟨fence, some l⟩)
    {opened : OpenFence} (h : fenceOpenAt text offset carry = some opened) : P opened := by
  revert h
  refine (fenceOpenLoop text offset).run_inv (P := fun s => ∀ o, s.opened = some o → P o)
    (Q := fun r => r = some opened → P opened) ?_ ?_ ?_
  · intro s s' hp hb o ho
    change fenceOpenPass text offset s = _ at hb
    unfold fenceOpenPass at hb
    split at hb
    case isFalse => cases hb
    rename_i hlt
    obtain rfl := Sum.inl.inj hb
    cases hso : s.opened with rw [hso] at ho
    | none =>
      obtain ⟨fence, hf, rfl⟩ := map_eq_some_iff.mp ho
      exact hline _ _ hlt hf
    | some state =>
      dsimp only at ho
      split at ho
      · cases ho
      · obtain rfl := some.inj ho
        exact hp state hso
  · intro s r hp hb hr
    obtain ⟨_, rfl⟩ := fenceOpenPass_inr hb
    exact hp opened hr
  · intro o ho
    obtain ⟨fence, hf, rfl⟩ := map_eq_some_iff.mp ho
    exact hcarry fence hf

/-- A fence found by the scan was opened by the line recorded for it, and that line begins before
the offset. -/
theorem fenceOpenAt_opened {carry : Option Fence}
    {opened : OpenFence} {lineStart : Nat} (h : fenceOpenAt text offset carry = some opened)
    (hs : opened.lineStart = some lineStart) :
    lineStart < offset ∧ openingFence (firstLine '\n' (text.drop lineStart)) = some opened.fence := by
  refine fenceOpenAt_inv (P := fun o => ∀ l, o.lineStart = some l →
    l < offset ∧ openingFence (firstLine '\n' (text.drop l)) = some o.fence) ?_ ?_ h lineStart hs
  · intro fence _ l hl
    cases hl
  · intro l fence hlt hf l' hl
    cases hl
    exact ⟨hlt, hf⟩

end GtaClaw.Channel
