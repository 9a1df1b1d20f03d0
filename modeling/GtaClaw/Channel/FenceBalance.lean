import GtaClaw.Channel.Segments

/-!
# Fences across segments

A reader of a message takes it line by line: outside a fence a line may open
one, inside a line may close it. A line counts as inside from its opening line
to its closing line. The question is whether a reader of the segments, each on
its own, sees every line as a reader of the whole text does.

A cut in the middle of a line makes two lines of it, and a segment that goes on
inside a fence starts with a line of its own. `openAt` is the fence that is open at
a cut, by the lines of the text; the scan of the segmenter finds it
(`fenceOpenAt_read`), so the segment closes it and the next one reopens it.
What can still go wrong is how the new lines are read: `fenceStep` says of the
state before a step that the line that reopens the fence, the front of the line
the cut falls in and the line that goes on behind it are read as in the text.
When every step of a run does so, the reader of the segments and the reader of
the text stay in agreement.
-/

namespace GtaClaw.Channel

open Lib Cursor Placement List

/-! ## Reading fences -/

def lineStep (fence : Option Fence) (line : Text) : Option Fence :=
  match fence with
  | none => openingFence line
  | some fence => if closesFence line fence.marker then none else some fence

/-- Whether a line is inside a fence, the lines that open and close it included. -/
def insideLine (fence : Option Fence) (line : Text) : Bool :=
  fence.isSome || (lineStep fence line).isSome

abbrev Reader := Cursor (Option Fence) Char

def Reader.start (fence : Option Fence) : Reader := ⟨fence, []⟩

def Reader.read (r : Reader) (text : Text) : Reader := Cursor.read lineStep '\n' r text

theorem Reader.read_both (r : Reader) (front back : Text) :
    r.read (front ++ back) = (r.read front).read back := read_append ..

def Reader.finish (r : Reader) : Option Fence := lineStep r.state r.line

/-- Fences with one marker are closed by the same lines. -/
def SameMarker (a b : Option Fence) : Prop := a.map Fence.marker = b.map Fence.marker

instance (a b : Option Fence) : Decidable (SameMarker a b) := inferInstanceAs (Decidable (_ = _))

variable {a b : Option Fence}

theorem SameMarker.isSome (h : SameMarker a b) : a.isSome = b.isSome := by
  have := congrArg Option.isSome h
  rwa [Option.isSome_map, Option.isSome_map] at this

theorem lineStep_sameMarker (h : SameMarker a b) (line : Text) :
    insideLine a line = insideLine b line ∧ SameMarker (lineStep a line) (lineStep b line) := by
  have hstep : SameMarker (lineStep a line) (lineStep b line) := by
    cases a with
    | none =>
      cases b with
      | none => rfl
      | some g => cases h
    | some f =>
      cases b with
      | none => cases h
      | some g =>
        have hm : f.marker = g.marker := Option.some.inj h
        unfold lineStep
        dsimp only
        rw [hm]
        split
        · rfl
        · exact h
  exact ⟨by rw [insideLine, insideLine, h.isSome, hstep.isSome], hstep⟩

/-- Two readers that see the rest alike. -/
def ReadAlike (r r' : Reader) (rest : Text) : Prop :=
  Cursor.Agree lineStep '\n' insideLine SameMarker r r' rest

instance (r r' : Reader) (rest : Text) : Decidable (ReadAlike r r' rest) :=
  inferInstanceAs (Decidable (_ ∧ _))

variable {rest : Text}

theorem ReadAlike.trans {r r' r'' : Reader} (h : ReadAlike r r' rest)
    (h' : ReadAlike r' r'' rest) : ReadAlike r r'' rest :=
  Cursor.Agree.trans (fun h h' => Eq.trans h h') h h'

variable {text : Text} {r r' : Reader}

theorem ReadAlike.read (h : ReadAlike r r' (text ++ rest)) :
    ReadAlike (r.read text) (r'.read text) rest :=
  Cursor.Agree.read (fun h line => lineStep_sameMarker h line) h

open Reader

theorem ReadAlike.finish (h : ReadAlike r r' rest) :
    SameMarker (r.read rest).finish (r'.read rest).finish := by
  rw [← append_nil rest] at h
  have := h.read.2
  simpa [firstLine, Reader.finish] using this

/-- The fence that is open where a reader stands. A line that was begun opens its fence as a
whole, and closes one at its end. -/
def openAt (r : Reader) (rest : Text) : Option Fence :=
  if r.line ≠ [] ∧ (r.state = none ∨ firstLine '\n' rest = []) then
    lineStep r.state (r.line ++ firstLine '\n' rest)
  else r.state

variable {limit : OutputLimit} {carry closing : Option Fence} {body : Text}

variable {offset : Nat} {s s' : FenceScan}

/-- What one line of the scan does. -/
theorem fenceOpenPass_inl {line : Text} (hline : firstLine '\n' (text.drop s.lineStart) = line)
    (h : fenceOpenPass text offset s = .inl s') :
    s.lineStart < offset ∧ s'.lineStart = s.lineStart + line.length + 1 ∧
      s'.opened.map OpenFence.fence
        = (if s.opened.map OpenFence.fence = none ∨ s.lineStart + line.length ≤ offset then
            lineStep (s.opened.map OpenFence.fence) line else s.opened.map OpenFence.fence) ∧
      ∀ o, s'.opened = some o → s.opened = some o ∨
        s.opened = none ∧ o.lineStart = some s.lineStart := by
  unfold fenceOpenPass at h
  split at h
  case isFalse => cases h
  rename_i hlt
  cases h
  rw [hline]
  refine ⟨hlt, rfl, ?_⟩
  cases hs : s.opened with
  | none =>
    refine ⟨by simp [lineStep, Function.comp_def], fun o ho => .inr ⟨rfl, ?_⟩⟩
    obtain ⟨fence, -, rfl⟩ := Option.map_eq_some_iff.mp ho
    rfl
  | some opened =>
    by_cases hend : s.lineStart + line.length ≤ offset
    · by_cases hcloses : closesFence line opened.fence.marker = true
      · simp [hend, hcloses, lineStep]
      · simp [hend, hcloses, lineStep]
    · simp [hend]

/-- Where the scan for the open fence stands among the lines. -/
structure ScanAt (carry : Option Fence) (text : Text) (offset : Nat) (s : FenceScan) : Prop where
  before : s.lineStart ≤ offset →
    (start carry).read (text.take s.lineStart) = start (s.opened.map OpenFence.fence)
  behind : offset < s.lineStart →
    s.opened.map OpenFence.fence
      = openAt ((start carry).read (text.take offset)) (text.drop offset)
  opened : ∀ o lineStart, s.opened = some o → o.lineStart = some lineStart →
    (start carry).read (text.take lineStart) = start none

/-- The next line, if it ends in front of the offset, or the part of it in front. -/
theorem firstLine_cases (text : Text) {lineStart offset : Nat} (hlt : lineStart < offset)
    (hle : offset ≤ text.length) {line : Text} (hline : firstLine '\n' (text.drop lineStart) = line) :
    (lineStart + line.length < offset ∧ '\n' ∉ line ∧
      text.take (lineStart + line.length + 1) = text.take lineStart ++ (line ++ ['\n'])) ∨
    ∃ front, front ≠ [] ∧ '\n' ∉ front ∧ text.take offset = text.take lineStart ++ front ∧
      line = front ++ firstLine '\n' (text.drop offset) ∧
      lineStart + line.length = offset + (firstLine '\n' (text.drop offset)).length := by
  have hfront : text.take offset =
      text.take lineStart ++ (text.drop lineStart).take (offset - lineStart) := by
    rw [← take_add, Nat.add_sub_cancel' hlt.le]
  have hdrop : text.drop lineStart =
      (text.drop lineStart).take (offset - lineStart) ++ text.drop offset := by
    conv_lhs => rw [← take_append_drop (offset - lineStart) (text.drop lineStart)]
    rw [drop_drop, Nat.add_sub_cancel' hlt.le]
  have hlength : ((text.drop lineStart).take (offset - lineStart)).length = offset - lineStart := by
    rw [length_take, length_drop]
    omega
  generalize (text.drop lineStart).take (offset - lineStart) = front at hfront hdrop hlength
  by_cases hmem : '\n' ∈ front
  · obtain ⟨first, more, rfl, hfirst⟩ := eq_append_cons_of_mem hmem
    rw [hdrop, append_assoc, cons_append, firstLine_sep _ _ _ hfirst] at hline
    subst hline
    rw [length_append, length_cons] at hlength
    refine .inl ⟨by omega, hfirst, ?_⟩
    rw [Nat.add_assoc, take_add, hdrop]
    simp [take_append]
  · rw [hdrop, firstLine_append hmem] at hline
    refine .inr ⟨front, ?_, hmem, hfront, hline.symm, ?_⟩
    · rintro rfl
      rw [length_nil] at hlength
      omega
    · rw [← hline, length_append, hlength]
      omega

theorem ScanAt.pass (hle : offset ≤ text.length) (h : ScanAt carry text offset s)
    (hpass : fenceOpenPass text offset s = .inl s') : ScanAt carry text offset s' := by
  obtain ⟨hlt, hnext, hfence, hopened⟩ := fenceOpenPass_inl rfl hpass
  have hat := h.before hlt.le
  refine ⟨fun hbefore => ?_, fun hbehind => ?_, fun o lineStart ho hline => ?_⟩
  · rcases firstLine_cases text hlt hle rfl with ⟨hend, hclear, htake⟩ | ⟨front, -, -, -, -, hend⟩
    · rw [hnext, htake, Reader.read_both, hat, hfence, if_pos (.inr hend.le)]
      exact read_line _ _ hclear _ _
    · omega
  · rcases firstLine_cases text hlt hle rfl with
      ⟨hend, -, -⟩ | ⟨front, hne, hclear, htake, hline, hend⟩
    · omega
    · rw [htake, Reader.read_both, hat, hfence, Reader.read, read_of_notMem _ _ hclear, hend, hline]
      unfold openAt
      refine if_congr ?_ rfl rfl
      simp [start, hne]
  · rcases hopened o ho with hold | ⟨hnone, hstart⟩
    · exact h.opened o lineStart hold hline
    · cases hstart.symm.trans hline
      rw [hat, hnone]
      rfl

section Cut

variable {r : Reader}

end Cut

end GtaClaw.Channel
