import GtaClaw.Channel.Window

/-!
# Segmentation

`next_segment` cuts one segment off the remaining text. The fence it may have to
close costs part of the budget, but which fence that is depends on where the cut
falls, so the budget is lowered and the cut placed again until the reserve
covers the fence. The reserve only grows and stays below what is available,
which bounds the loop.

The eager `segment_text` collects an iterator; the lazy `segment_text_iter`
checks the whole sequence first and hands the iterator out. Every step leaves a
strictly shorter text, and this is what makes either of them a function.
-/

namespace GtaClaw.Channel

open Lib

inductive SegmentationError where
  | noDeclaredLimit
  | limitTooSmall
  | indivisibleCluster
  deriving DecidableEq, Repr

/-- How the loop of `next_segment` ends: the text goes out whole, or is cut with a fence closed. -/
inductive Placement where
  | whole
  | cut (split : Nat) (closing : Option Fence)
  deriving DecidableEq

def reopenCost (unit : LengthUnit) (carry : Option Fence) : Nat :=
  carry.elim 0 (fun fence => fence.reopenUnits unit)

def closeCost (unit : LengthUnit) (closing : Option Fence) : Nat :=
  closing.elim 0 (fun fence => fence.closeUnits unit)

/-- One pass of the reserve loop. -/
def reservePass (text : Text) (unit : LengthUnit) (carry : Option Fence) (available reserve : Nat) :
    Except SegmentationError (Nat ⊕ Placement) :=
  let budget := available - reserve
  let window := scanWindow text unit budget
  if reserve = 0 ∧ window.fits = true then .ok (.inr .whole)
  else if window.ceiling = 0 then .error .indivisibleCluster
  else
    let (split, closing) := placeSplit text window budget carry
    if closeCost unit closing > reserve then
      if closeCost unit closing ≥ available then .error .limitTooSmall
      else .ok (.inl (closeCost unit closing))
    else .ok (.inr (.cut split closing))

variable {carry : Option Fence} {limit : OutputLimit} {text : Text}

theorem reservePass_cases {unit : LengthUnit} {available reserve : Nat} {r : Nat ⊕ Placement}
    (h : reservePass text unit carry available reserve = .ok r) :
    (r = .inr .whole ∧ reserve = 0 ∧ unit.measure text ≤ available)
    ∨ ∃ split closing, (scanWindow text unit (available - reserve)).ceiling ≠ 0
      ∧ ¬ (reserve = 0 ∧ unit.measure text ≤ available)
      ∧ placeSplit text (scanWindow text unit (available - reserve)) (available - reserve) carry
        = (split, closing)
      ∧ (r = .inl (closeCost unit closing) ∧ reserve < closeCost unit closing
          ∧ closeCost unit closing < available
        ∨ r = .inr (.cut split closing) ∧ closeCost unit closing ≤ reserve) := by
  have hfits := (scanWindow_sound text unit (available - reserve)).2
  have hnot : ¬ (reserve = 0 ∧ (scanWindow text unit (available - reserve)).fits = true) →
      ¬ (reserve = 0 ∧ unit.measure text ≤ available) := by
    rintro hwhole ⟨rfl, hm⟩
    exact hwhole ⟨rfl, hfits.mpr hm⟩
  revert h
  fun_cases reservePass text unit carry available reserve with (intro h; cases h)
  | case1 budget window hwhole =>
    obtain ⟨rfl, hf⟩ := hwhole
    exact .inl ⟨rfl, rfl, hfits.mp hf⟩
  | case4 budget window hwhole hceil split closing hp hcost hlarge =>
    exact .inr ⟨split, closing, hceil, hnot hwhole, hp, .inl ⟨rfl, hcost, Nat.lt_of_not_le hlarge⟩⟩
  | case5 budget window hwhole hceil split closing hp hcost =>
    exact .inr ⟨split, closing, hceil, hnot hwhole, hp, .inr ⟨rfl, not_lt.mp hcost⟩⟩

theorem reservePass_inl {unit : LengthUnit} {available reserve reserve' : Nat}
    (h : reservePass text unit carry available reserve = .ok (.inl reserve')) :
    reserve < reserve' ∧ reserve' < available := by
  rcases reservePass_cases h with ⟨h, _⟩ | ⟨_, _, _, _, _, ⟨h, h1, h2⟩ | ⟨h, _⟩⟩
  · cases h
  · cases h
    exact ⟨h1, h2⟩
  · cases h

def reserveLoop (text : Text) (unit : LengthUnit) (carry : Option Fence) (available : Nat) :
    Loop Nat (Except SegmentationError Placement) :=
  Loop.fallible (reservePass text unit carry available) (fun reserve => available - reserve)
    (fun _ _ h => by have := reservePass_inl h; omega)

/-- Where the next segment ends. -/
def nextPlacement (text : Text) (limit : OutputLimit) (carry : Option Fence) :
    Except SegmentationError Placement := do
  let available ← okOr .limitTooSmall
    ((checkedSub limit.max (reopenCost limit.unit carry)).filter (· > 0))
  (reserveLoop text limit.unit carry available).run 0

/-- A segment from its body, reopening and closing what it has to. -/
def buildSegment (body : Text) (opening closing : Option Fence) : Text :=
  let segment := opening.elim [] (fun fence => fence.openingLine ++ ['\n']) ++ body
  match closing with
  | none => segment
  | some fence =>
    (if segment.getLast? = some '\n' then segment else segment ++ ['\n']) ++ fence.marker

/-- One emitted segment plus the state needed for the next one. -/
structure Step where
  segment : Text
  carry : Option Fence
  rest : Text
  deriving DecidableEq

/-- What the next segment starts from, behind a cut that closed `closing`. -/
def restAfter (closing : Option Fence) (rest : Text) : Text :=
  if closing.isSome then stripOneNewline rest else trimStart rest

def Placement.step (text : Text) (carry : Option Fence) : Placement → Step
  | .whole => { segment := buildSegment text carry none, carry := none, rest := [] }
  | .cut split closing =>
    { segment := buildSegment (text.take split) carry closing
      carry := closing
      rest := restAfter closing (text.drop split) }

def nextSegment (text : Text) (limit : OutputLimit) (carry : Option Fence) :
    Except SegmentationError Step :=
  (nextPlacement text limit carry).map (Placement.step text carry)

/-! ## Progress -/

/-- What a placement promises. -/
def Placement.Good (text : Text) (limit : OutputLimit) (carry : Option Fence) : Placement → Prop
  | .whole => reopenCost limit.unit carry + limit.unit.measure text ≤ limit.max
  | .cut split closing =>
    ¬ reopenCost limit.unit carry + limit.unit.measure text ≤ limit.max
    ∧ 0 < split ∧ split ≤ text.length
    ∧ reopenCost limit.unit carry + limit.unit.measure (text.take split)
        + closeCost limit.unit closing ≤ limit.max
    ∧ ∃ budget, (scanWindow text limit.unit budget).ceiling ≠ 0
        ∧ placeSplit text (scanWindow text limit.unit budget) budget carry = (split, closing)

/-- **The reserve covers the fence**: reopening, the body and closing fit the limit together. -/
theorem nextPlacement_good
    {p : Placement} (h : nextPlacement text limit carry = .ok p) : p.Good text limit carry := by
  obtain ⟨available, ha, hrun⟩ := bind_ok h
  obtain ⟨hsub, hpos⟩ := Option.filter_eq_some_iff.mp (okOr_ok ha)
  have hmax : reopenCost limit.unit carry + available = limit.max := by
    unfold checkedSub at hsub
    split at hsub <;> cases hsub
    omega
  revert hrun
  refine (reserveLoop text limit.unit carry available).run_inv
    (P := fun reserve => reserve < available
      ∧ (reserve ≠ 0 → ¬ limit.unit.measure text ≤ available))
    (Q := fun r => r = .ok p → p.Good text limit carry) ?_ ?_ ⟨by simpa using hpos, fun h => absurd rfl h⟩
  · intro reserve reserve' hp hb
    have hb' := Loop.tryPass_inl.mp hb
    refine ⟨(reservePass_inl hb').2, fun _ => ?_⟩
    rcases reservePass_cases hb' with ⟨h, _⟩ | ⟨_, _, _, hnot, _⟩
    · cases h
    intro hm
    by_cases hz : reserve = 0
    · exact hnot ⟨hz, hm⟩
    · exact hp.2 hz hm
  · intro reserve r hp hb hr
    subst hr
    have hb' := Loop.tryPass_ok.mp hb
    rcases reservePass_cases hb' with ⟨h, _, hm⟩ | ⟨split, closing, hc, hnot, hplace, h⟩
    · cases h
      show _ + _ ≤ _
      omega
    rcases h with ⟨h, _⟩ | ⟨h, hcost⟩
    · cases h
    cases h
    obtain ⟨h1, h2, h3⟩ := placeSplit_fits hc hplace
    refine ⟨?_, h1, h2, by omega, _, hc, hplace⟩
    intro hm
    by_cases hz : reserve = 0
    · exact hnot ⟨hz, by omega⟩
    · exact hp.2 hz (by omega)

theorem stripOneNewline_cases (text : Text) : ∃ ending, text = ending ++ stripOneNewline text
    ∧ (ending = [] ∨ ending = ['\n'] ∨ ending = ['\r', '\n']) := by
  unfold stripOneNewline
  split
  · exact ⟨['\r', '\n'], rfl, by simp⟩
  · exact ⟨['\n'], rfl, by simp⟩
  · exact ⟨[], rfl, by simp⟩

theorem restAfter_suffix (closing : Option Fence) (text : Text) :
    restAfter closing text <:+ text := by
  unfold restAfter
  split
  · obtain ⟨ending, h, _⟩ := stripOneNewline_cases text
    exact ⟨ending, h.symm⟩
  · exact List.dropWhile_suffix _

/-- **Every step leaves strictly less text.** -/
theorem nextSegment_rest_lt {step : Step}
    (hne : text ≠ []) (h : nextSegment text limit carry = .ok step) :
    step.rest.length < text.length := by
  obtain ⟨p, hp, rfl⟩ := map_ok h
  have hgood := nextPlacement_good hp
  have hlen : 0 < text.length := List.length_pos_iff.mpr hne
  cases p with
  | whole => exact hlen
  | cut split closing =>
    obtain ⟨_, h1, h2, _⟩ := hgood
    have hrest := (restAfter_suffix closing (text.drop split)).length_le
    rw [List.length_drop] at hrest
    show (restAfter closing (text.drop split)).length < text.length
    omega

/-! ## The iterator and its two users -/

/-- Lazy traversal of one message's canonical segments. -/
structure TextSegments where
  remaining : Text
  limit : OutputLimit
  carry : Option Fence
  failed : Bool
  single : Bool

def TextSegments.new (text : Text) (limit : OutputLimit) (single : Bool) : TextSegments where
  remaining := text
  limit := limit
  carry := none
  failed := false
  single := single

variable (it : TextSegments)

/-- `Iterator::next`: the item, if any, and the iterator behind it. -/
def TextSegments.next : Option (Except SegmentationError Text × TextSegments) :=
  if it.failed || it.remaining.isEmpty then none
  else if it.single then
    some (.ok it.remaining, { it with single := false, remaining := [] })
  else
    match nextSegment it.remaining it.limit it.carry with
    | .ok step => some (.ok step.segment, { it with remaining := step.rest, carry := step.carry })
    | .error e => some (.error e, { it with failed := true })

/-- How much an iterator can still yield at most. -/
def TextSegments.left : Nat := if it.failed then 0 else it.remaining.length + 1

theorem TextSegments.next_left {it it' : TextSegments} {item : Except SegmentationError Text}
    (h : it.next = some (item, it')) : it'.left < it.left := by
  unfold next at h
  by_cases hend : (it.failed || it.remaining.isEmpty) = true
  · rw [if_pos hend] at h; cases h
  rw [if_neg hend] at h
  obtain ⟨hf, hr⟩ : it.failed = false ∧ it.remaining ≠ [] := by simpa using hend
  have hlen : 0 < it.remaining.length := List.length_pos_iff.mpr hr
  split at h
  · obtain ⟨_, rfl⟩ := Prod.mk.inj (Option.some.inj h)
    simp only [left, hf]
    exact Nat.succ_lt_succ hlen
  · cases hn : nextSegment it.remaining it.limit it.carry with rw [hn] at h
    | error e =>
      obtain ⟨_, rfl⟩ := Prod.mk.inj (Option.some.inj h)
      simp [left, hf]
    | ok step =>
      obtain ⟨_, rfl⟩ := Prod.mk.inj (Option.some.inj h)
      have := nextSegment_rest_lt hr hn
      simp only [left, hf]
      exact Nat.succ_lt_succ this

/-- Where `collect` stands: the iterator and what it has yielded. -/
structure Collecting where
  it : TextSegments
  out : List Text

def collectPass (s : Collecting) : Except SegmentationError (Collecting ⊕ List Text) :=
  match s.it.next with
  | none => .ok (.inr s.out)
  | some (.ok segment, it) => .ok (.inl ⟨it, s.out ++ [segment]⟩)
  | some (.error e, _) => .error e

def collectLoop : Loop Collecting (Except SegmentationError (List Text)) :=
  Loop.fallible collectPass (fun s => s.it.left) (fun s s' h => by
    unfold collectPass at h
    split at h
    · cases h
    · rename_i segment it hn
      cases h
      exact TextSegments.next_left hn
    · cases h)

/-- Collecting into a `Result<Vec<_>, _>` stops at the first error. -/
def TextSegments.collect : Except SegmentationError (List Text) := collectLoop.run ⟨it, []⟩

structure Draining where
  it : TextSegments
  out : List (Except SegmentationError Text)

def drainLoop : Loop Draining (List (Except SegmentationError Text)) where
  body s :=
    match s.it.next with
    | none => .inr s.out
    | some (item, it) => .inl ⟨it, s.out ++ [item]⟩
  measure s := s.it.left
  decreases s s' h := by
    split at h
    · cases h
    rename_i item it hn
    cases h
    exact TextSegments.next_left hn

/-- Everything the iterator yields before it returns `None`. -/
def TextSegments.items : List (Except SegmentationError Text) := drainLoop.run ⟨it, []⟩

/-- Splits `text` into segments that each fit `limit`. -/
def segmentText (text : Text) (limit : Option OutputLimit) :
    Except SegmentationError (List Text) := do
  let limit ← okOr .noDeclaredLimit limit
  (TextSegments.new text limit false).collect

/-- Where `validate_segments` stands. -/
structure Validating where
  remaining : Text
  carry : Option Fence

def validatePass (limit : OutputLimit) (s : Validating) :
    Except SegmentationError (Validating ⊕ Unit) :=
  if s.remaining.isEmpty then .ok (.inr ())
  else (nextSegment s.remaining limit s.carry).map (fun step => .inl ⟨step.rest, step.carry⟩)

def validateLoop (limit : OutputLimit) : Loop Validating (Except SegmentationError Unit) :=
  Loop.fallible (validatePass limit) (fun s => s.remaining.length) (fun s s' h => by
    unfold validatePass at h
    by_cases he : s.remaining.isEmpty = true
    · rw [if_pos he] at h; cases h
    rw [if_neg he] at h
    obtain ⟨step, hstep, hs⟩ := map_ok h
    cases hs
    exact nextSegment_rest_lt (by simpa using he) hstep)

def validateSegments (text : Text) (limit : OutputLimit) : Except SegmentationError Unit :=
  (validateLoop limit).run ⟨text, none⟩

/-- Lazily segments `text`, after checking the complete sequence. -/
def segmentTextIter (text : Text) (limit : Option OutputLimit) :
    Except SegmentationError TextSegments := do
  let limit ← okOr .noDeclaredLimit limit
  let single := limit.fits text
  if !single then
    validateSegments text limit
  return TextSegments.new text limit single

end GtaClaw.Channel
