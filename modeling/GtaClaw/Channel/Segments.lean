import GtaClaw.Channel.Segmentation

/-!
# Runs of the segmenter

A run takes the text apart into pieces: the fence a segment reopens, its body,
the fence it closes, and what is dropped behind it. `Run` and `Fails` are all
there is to say about a run; the eager collection, the lazy iterator and the
validation in front of it are three ways of following one, and each is shown to
follow it step by step. The properties of segments are then facts about runs.
-/

namespace GtaClaw.Channel

open Lib TextSegments LengthUnit Placement Loop List

/-! ## Pieces -/

/-- One step of a run, with everything it took off the text. -/
structure Piece where
  opening : Option Fence
  body : Text
  closing : Option Fence
  /-- What is trimmed behind the body. -/
  dropped : Text

def Piece.segment (piece : Piece) : Text := buildSegment piece.body piece.opening piece.closing

/-- The part of the text the piece accounts for. -/
def Piece.source (piece : Piece) : Text := piece.body ++ piece.dropped

/-- What `restAfter` removes. -/
def gap (closing : Option Fence) (rest : Text) : Text :=
  rest.take (rest.length - (restAfter closing rest).length)

theorem gap_append (closing : Option Fence) (text : Text) :
    gap closing text ++ restAfter closing text = text :=
  suffix_iff_eq_append.mp (restAfter_suffix closing text)

theorem gap_none (text : Text) : gap none text = text.takeWhile isWhitespace := by
  have h : gap none text ++ restAfter none text
      = text.takeWhile isWhitespace ++ restAfter none text :=
    (gap_append none text).trans takeWhile_append_dropWhile.symm
  exact append_cancel_right h

theorem gap_some (fence : Fence) (text : Text) :
    gap (some fence) text = [] ∨ gap (some fence) text = ['\n']
      ∨ gap (some fence) text = ['\r', '\n'] := by
  obtain ⟨ending, hend, hcases⟩ := stripOneNewline_cases text
  have h : gap (some fence) text ++ restAfter (some fence) text
      = ending ++ restAfter (some fence) text := (gap_append (some fence) text).trans hend
  rw [append_cancel_right h]
  exact hcases

/-- **What is dropped is whitespace**, and at most one line ending inside a fence. -/
theorem gap_whitespace (closing : Option Fence) (text : Text) :
    ∀ c ∈ gap closing text, isWhitespace c = true := by
  cases closing with
  | none =>
    intro c hc
    rw [gap_none] at hc
    exact mem_takeWhile_imp hc
  | some fence =>
    rcases gap_some fence text with h | h | h <;> rw [h] <;>
      exact all_eq_true.mp (by decide)

def Placement.piece (text : Text) (carry : Option Fence) : Placement → Piece
  | .whole => ⟨carry, text, none, []⟩
  | .cut split closing => ⟨carry, text.take split, closing, gap closing (text.drop split)⟩

section

variable (text : Text) (carry : Option Fence) (p : Placement)
include text carry p

theorem Placement.piece_segment : (p.piece text carry).segment = (p.step text carry).segment := by
  cases p <;> rfl

theorem Placement.piece_source :
    (p.piece text carry).source ++ (p.step text carry).rest = text := by
  cases p with
  | whole => simp [piece, step, Piece.source]
  | cut split closing =>
    simp only [piece, step, Piece.source, append_assoc, gap_append, take_append_drop]

end

/-! ## Runs -/

/-- `Run limit carry text pieces`: segmentation of `text` from `carry` ends, with these pieces. -/
inductive Run (limit : OutputLimit) : Option Fence → Text → List Piece → Prop where
  | done {carry : Option Fence} : Run limit carry [] []
  | step {carry : Option Fence} {text : Text} {p : Placement} {pieces : List Piece} :
      text ≠ [] → nextPlacement text limit carry = .ok p →
      Run limit (p.step text carry).carry (p.step text carry).rest pieces →
      Run limit carry text (p.piece text carry :: pieces)

/-- `Fails limit carry text e`: some step of the segmentation is refused. -/
inductive Fails (limit : OutputLimit) : Option Fence → Text → SegmentationError → Prop where
  | here {carry : Option Fence} {text : Text} {e : SegmentationError} :
      text ≠ [] → nextPlacement text limit carry = .error e → Fails limit carry text e
  | later {carry : Option Fence} {text : Text} {p : Placement} {e : SegmentationError} :
      text ≠ [] → nextPlacement text limit carry = .ok p →
      Fails limit (p.step text carry).carry (p.step text carry).rest e → Fails limit carry text e

variable {text : Text} {limit : OutputLimit} {carry : Option Fence} {p : Placement}

theorem nextSegment_of_placement (h : nextPlacement text limit carry = .ok p) :
    nextSegment text limit carry = .ok (p.step text carry) := by
  rw [nextSegment, h]; rfl

variable {e : SegmentationError}

theorem nextSegment_of_error (h : nextPlacement text limit carry = .error e) :
    nextSegment text limit carry = .error e := by
  rw [nextSegment, h]; rfl

/-- **Every text either runs through or fails.** -/
theorem run_or_fails (limit : OutputLimit) (carry : Option Fence) (text : Text) :
    (∃ pieces, Run limit carry text pieces) ∨ ∃ e, Fails limit carry text e := by
  induction hn : text.length using Nat.strongRecOn generalizing carry text with
  | ind n ih =>
    by_cases hne : text = []
    · subst hne
      exact Or.inl ⟨[], .done⟩
    cases hp : nextPlacement text limit carry with
    | error e => exact Or.inr ⟨e, .here hne hp⟩
    | ok p =>
      have hlt := nextSegment_rest_lt hne (nextSegment_of_placement hp)
      rcases ih _ (hn ▸ hlt) (p.step text carry).carry (p.step text carry).rest rfl with
        ⟨pieces, hr⟩ | ⟨e, hf⟩
      · exact Or.inl ⟨_, .step hne hp hr⟩
      · exact Or.inr ⟨e, .later hne hp hf⟩

/-! ## The three ways of following a run -/

/-- An iterator in the middle of a run. -/
def TextSegments.at (text : Text) (limit : OutputLimit) (carry : Option Fence) : TextSegments :=
  ⟨text, limit, carry, false, false⟩

theorem next_done (limit : OutputLimit) (carry : Option Fence) :
    (TextSegments.at [] limit carry).next = none := rfl

theorem next_of_ne (hne : text ≠ []) :
    (TextSegments.at text limit carry).next = match nextSegment text limit carry with
      | .ok step => some (.ok step.segment, TextSegments.at step.rest limit step.carry)
      | .error e => some (.error e, { TextSegments.at text limit carry with failed := true }) := by
  rw [TextSegments.next, if_neg (by simpa [TextSegments.at] using hne)]
  rfl

theorem next_step (hne : text ≠ []) (hp : nextPlacement text limit carry = .ok p) :
    (TextSegments.at text limit carry).next = some (.ok (p.step text carry).segment,
      TextSegments.at (p.step text carry).rest limit (p.step text carry).carry) := by
  rw [next_of_ne hne, nextSegment_of_placement hp]

variable {pieces : List Piece}

theorem collect_run (h : Run limit carry text pieces) (out : List Text) :
    collectLoop.run ⟨TextSegments.at text limit carry, out⟩
      = .ok (out ++ pieces.map Piece.segment) := by
  induction h generalizing out with
  | done =>
    refine Loop.fallible_exit ?_
    rw [collectPass, next_done, map_nil, append_nil]
  | step hne hp _ ih =>
    refine (Loop.fallible_pass (by rw [collectPass, next_step hne hp])).trans ?_
    refine (ih _).trans ?_
    rw [map_cons, Placement.piece_segment, append_assoc]
    rfl

theorem collect_fails (h : Fails limit carry text e) (out : List Text) :
    collectLoop.run ⟨TextSegments.at text limit carry, out⟩ = .error e := by
  induction h generalizing out with
  | here hne hp =>
    refine Loop.fallible_error ?_
    rw [collectPass, next_of_ne hne, nextSegment_of_error hp]
  | later hne hp _ ih =>
    exact (Loop.fallible_pass (by rw [collectPass, next_step hne hp])).trans (ih _)

theorem drain_next {it it' : TextSegments} {item : Except SegmentationError Text}
    (h : it.next = some (item, it')) (out : List (Except SegmentationError Text)) :
    drainLoop.run ⟨it, out⟩ = drainLoop.run ⟨it', out ++ [item]⟩ :=
  run_of_pass (by simp only [drainLoop, h])

theorem drain_end {it : TextSegments} (h : it.next = none)
    (out : List (Except SegmentationError Text)) : drainLoop.run ⟨it, out⟩ = out :=
  run_of_exit (by simp only [drainLoop, h])

theorem drain_run (h : Run limit carry text pieces) (out : List (Except SegmentationError Text)) :
    drainLoop.run ⟨TextSegments.at text limit carry, out⟩
      = out ++ pieces.map (fun piece => .ok piece.segment) := by
  induction h generalizing out with
  | done => rw [drain_end (next_done _ _), map_nil, append_nil]
  | step hne hp _ ih =>
    refine (drain_next (next_step hne hp) out).trans ((ih _).trans ?_)
    rw [map_cons, Placement.piece_segment, append_assoc]
    rfl

theorem validate_run (h : Run limit carry text pieces) :
    (validateLoop limit).run ⟨text, carry⟩ = .ok () := by
  induction h with
  | done => exact fallible_exit rfl
  | step hne hp _ ih =>
    refine (fallible_pass ?_).trans ih
    rw [validatePass, if_neg (by simpa using hne), nextSegment_of_placement hp]
    rfl

theorem validate_fails (h : Fails limit carry text e) :
    (validateLoop limit).run ⟨text, carry⟩ = .error e := by
  induction h with
  | here hne hp =>
    refine fallible_error ?_
    rw [validatePass, if_neg (by simpa using hne), nextSegment_of_error hp]
    rfl
  | later hne hp _ ih =>
    refine (fallible_pass ?_).trans ih
    rw [validatePass, if_neg (by simpa using hne), nextSegment_of_placement hp]
    rfl

theorem segmentText_run (h : Run limit none text pieces) :
    segmentText text (some limit) = .ok (pieces.map Piece.segment) :=
  collect_run h []

theorem segmentText_fails
    (h : Fails limit none text e) : segmentText text (some limit) = .error e :=
  collect_fails h []

/-- **Success is a run.** -/
theorem exists_run {segments : List Text} (h : segmentText text (some limit) = .ok segments) :
    ∃ pieces, Run limit none text pieces ∧ segments = pieces.map Piece.segment := by
  rcases run_or_fails limit none text with ⟨pieces, hr⟩ | ⟨e, hf⟩
  · exact ⟨pieces, hr, (Except.ok.inj ((segmentText_run hr).symm.trans h)).symm⟩
  · rw [segmentText_fails hf] at h
    cases h

theorem run_of_fits (hne : text ≠ [])
    (h : limit.fits text = true) : Run limit none text [⟨none, text, none, []⟩] := by
  have hm := (limit.fits_iff text).mp h
  have hp : nextPlacement text limit none = .ok .whole := by
    have havail : okOr SegmentationError.limitTooSmall
        ((checkedSub limit.max (reopenCost limit.unit none)).filter (· > 0)) = .ok limit.max := by
      have hpos := limit.pos
      simp [checkedSub, reopenCost, okOr, Option.filter, hpos]
    rw [nextPlacement, havail]
    refine fallible_exit ?_
    have hfits := (scanWindow_sound text limit.unit limit.max).2.mpr hm
    rw [reservePass]
    simp [hfits]
  exact .step hne hp .done

/-- **The lazy iterator follows the same run.** -/
theorem segmentTextIter_run (h : Run limit none text pieces) :
    ∃ it, segmentTextIter text (some limit) = .ok it
      ∧ it.items = pieces.map (fun piece => .ok piece.segment) := by
  cases hf : limit.fits text with
  | false =>
    refine ⟨TextSegments.at text limit none, ?_, drain_run h []⟩
    have hv : validateSegments text limit = .ok () := validate_run h
    rw [segmentTextIter]
    simp only [okOr, bind, Except.bind, hf, hv]
    rfl
  | true =>
    refine ⟨TextSegments.new text limit true, ?_, ?_⟩
    · rw [segmentTextIter]
      simp only [okOr, bind, Except.bind, hf]
      rfl
    · cases h with
      | done => exact drain_end rfl []
      | step hne hp hr =>
        -- the eager run of a message that fits is the one piece the iterator yields at once
        have hone := segmentText_run (run_of_fits hne hf)
        rw [segmentText_run (.step hne hp hr)] at hone
        have hpieces := Except.ok.inj hone
        have hnext : (TextSegments.new text limit true).next
            = some (.ok text, ⟨[], limit, none, false, false⟩) := by
          simp [TextSegments.next, TextSegments.new, hne]
        refine (drain_next hnext []).trans ((drain_end rfl _).trans ?_)
        have hmap := congrArg (map (Except.ok (ε := SegmentationError))) hpieces
        rw [map_map] at hmap
        exact hmap.symm

theorem segmentTextIter_fails
    (h : Fails limit none text e) : segmentTextIter text (some limit) = .error e := by
  have hf : limit.fits text = false := by
    by_contra hne
    rw [Bool.not_eq_false] at hne
    have htext : text ≠ [] := by cases h <;> assumption
    have := segmentText_run (run_of_fits htext hne)
    rw [segmentText_fails h] at this
    cases this
  have hv : validateSegments text limit = .error e := validate_fails h
  rw [segmentTextIter]
  simp only [okOr, bind, Except.bind, hf, Bool.not_false, if_true, hv]

/-! ## Length -/

/-- The line a continued fence puts in front of the body. -/
def reopening (opening : Option Fence) : Text :=
  opening.elim [] (fun fence => fence.openingLine ++ ['\n'])

/-- What closes the fence behind `front`, on a line of its own. -/
def ending (front : Text) (closing : Option Fence) : Text :=
  closing.elim [] (fun fence => (if front.getLast? = some '\n' then [] else ['\n']) ++ fence.marker)

theorem buildSegment_eq (body : Text) (opening closing : Option Fence) :
    buildSegment body opening closing
      = reopening opening ++ body ++ ending (reopening opening ++ body) closing := by
  cases closing with
  | none => simp [buildSegment, reopening, ending]
  | some fence =>
    show (if (reopening opening ++ body).getLast? = some '\n' then reopening opening ++ body
        else reopening opening ++ body ++ ['\n']) ++ fence.marker
      = reopening opening ++ body ++ ((if (reopening opening ++ body).getLast? = some '\n' then []
        else ['\n']) ++ fence.marker)
    split <;> simp

theorem measure_buildSegment_le (unit : LengthUnit) (body : Text) (opening closing : Option Fence) :
    unit.measure (buildSegment body opening closing)
      ≤ reopenCost unit opening + unit.measure body + closeCost unit closing := by
  have hopen : unit.measure (reopening opening) = reopenCost unit opening := by
    cases opening with
    | none => exact unit.measure_nil
    | some fence =>
      simp only [reopening, Option.elim, reopenCost, Fence.openingLine, Fence.reopenUnits,
        measure_append, measure_newline]
  have hclose : ∀ front, unit.measure (ending front closing) ≤ closeCost unit closing := by
    intro front
    cases closing with
    | none => simp [ending]
    | some fence =>
      simp only [ending, Option.elim, closeCost, Fence.closeUnits, measure_append]
      split
      · rw [measure_nil]; omega
      · rw [measure_newline]; omega
  have := hclose (reopening opening ++ body)
  rw [buildSegment_eq, measure_append, measure_append]
  omega

/-- One step yields a segment within the limit that is not empty. -/
theorem piece_fits (hne : text ≠ []) (h : nextPlacement text limit carry = .ok p) :
    limit.unit.measure (p.piece text carry).segment ≤ limit.max
      ∧ (p.piece text carry).body ≠ [] := by
  have hgood := nextPlacement_good h
  cases p with
  | whole =>
    refine ⟨(measure_buildSegment_le limit.unit text carry none).trans ?_, hne⟩
    exact hgood
  | cut split closing =>
    obtain ⟨_, hpos, hle, hfits, _⟩ := hgood
    refine ⟨(measure_buildSegment_le limit.unit _ carry closing).trans hfits, ?_⟩
    show text.take split ≠ []
    intro hnil
    have := congrArg length hnil
    rw [length_take, length_nil] at this
    omega

theorem run_fits (h : Run limit carry text pieces) : ∀ piece ∈ pieces,
      limit.unit.measure piece.segment ≤ limit.max ∧ piece.body ≠ [] := by
  induction h with
  | done => exact forall_mem_nil _
  | step hne hp _ ih => exact forall_mem_cons.mpr ⟨piece_fits hne hp, ih⟩

theorem segment_ne_nil {piece : Piece} (h : piece.body ≠ []) : piece.segment ≠ [] := by
  rw [Piece.segment, buildSegment_eq]
  intro hnil
  rw [append_eq_nil_iff, append_eq_nil_iff] at hnil
  exact h hnil.1.2

/-- **Every segment fits the limit and says something**, eagerly and lazily. -/
theorem segments_fit (text : Text) (limit : OutputLimit) :
    (∀ segments, segmentText text (some limit) = .ok segments →
      ∀ segment ∈ segments, limit.unit.measure segment ≤ limit.max ∧ segment ≠ [])
    ∧ ∀ it, segmentTextIter text (some limit) = .ok it →
      ∀ segment, .ok segment ∈ it.items →
        limit.unit.measure segment ≤ limit.max ∧ segment ≠ [] := by
  have hpiece : ∀ {pieces : List Piece}, Run limit none text pieces → ∀ piece ∈ pieces,
      limit.unit.measure piece.segment ≤ limit.max ∧ piece.segment ≠ [] := fun hr piece hmem =>
    ⟨(run_fits hr piece hmem).1, segment_ne_nil (run_fits hr piece hmem).2⟩
  constructor
  · intro segments h segment hmem
    obtain ⟨pieces, hr, rfl⟩ := exists_run h
    obtain ⟨piece, hp, rfl⟩ := mem_map.mp hmem
    exact hpiece hr piece hp
  · intro it h segment hmem
    rcases run_or_fails limit none text with ⟨pieces, hr⟩ | ⟨e, hf⟩
    · obtain ⟨it', hit, hitems⟩ := segmentTextIter_run hr
      obtain rfl := Except.ok.inj (h.symm.trans hit)
      rw [hitems] at hmem
      obtain ⟨piece, hp, heq⟩ := mem_map.mp hmem
      obtain rfl := Except.ok.inj heq
      exact hpiece hr piece hp
    · rw [segmentTextIter_fails hf] at h
      cases h

def longBlock : Text := "```\nabc\ndefghijk\n```".toList

def twelveChars : OutputLimit := ⟨12, .chars, by decide, by decide⟩

def longBlockSegments : List Text :=
  ["```\nabc\n```".toList, "```\ndefg\n```".toList, "```\nhijk\n```".toList]

theorem segmentText_longBlock : segmentText longBlock (some twelveChars) = .ok longBlockSegments := by
  decide +kernel

theorem segments_fit_longBlock : segmentText longBlock (some twelveChars) = .ok longBlockSegments
    ∧ ∀ segment ∈ longBlockSegments, twelveChars.unit.measure segment ≤ 12 ∧ segment ≠ [] := by
  have hfit := (segments_fit longBlock twelveChars).1 longBlockSegments segmentText_longBlock
  exact ⟨segmentText_longBlock, hfit⟩

/-! ## Nothing is lost -/

theorem Placement.piece_opening (text : Text) (carry : Option Fence) (p : Placement) :
    (p.piece text carry).opening = carry := by
  cases p <;> rfl

theorem run_source (h : Run limit carry text pieces) : pieces.flatMap Piece.source = text := by
  induction h with
  | done => rfl
  | step hne hp _ ih => rw [flatMap_cons, ih, piece_source]

/-- A verdict on every step of a run. The state in front of a step is the fence its piece reopens
and the text the pieces from there on account for. -/
def everyStep (verdict : Option Fence → Text → Bool) : List Piece → Bool
  | [] => true
  | piece :: pieces =>
    verdict piece.opening ((piece :: pieces).flatMap Piece.source) && everyStep verdict pieces

theorem everyStep_run (verdict : Option Fence → Text → Bool) (hne : text ≠ [])
    (hp : nextPlacement text limit carry = .ok p)
    (hr : Run limit (p.step text carry).carry (p.step text carry).rest pieces) :
    everyStep verdict (p.piece text carry :: pieces)
      = (verdict carry text && everyStep verdict pieces) := by
  rw [everyStep, run_source (.step hne hp hr), piece_opening]

section

variable (h : Run limit carry text pieces)
include h

theorem run_nil (hnil : text = []) : pieces = [] := by
  cases h with
  | done => rfl
  | step hne _ _ => exact absurd hnil hne

end

/-- **The lazy and the eager segmenter agree, and both terminate.** -/
theorem segmentTextIter_agrees (text : Text) (limit : Option OutputLimit) :
    (match segmentTextIter text limit with
      | .error e => segmentText text limit = .error e
      | .ok it => ∃ segments, segmentText text limit = .ok segments
          ∧ it.items = segments.map (fun segment => .ok segment))
    ∧ (∀ it, (∃ n, n ≤ it.left + 1 ∧ collectLoop.Passes n ⟨it, []⟩ it.collect)
        ∧ ∃ n, n ≤ it.left + 1 ∧ drainLoop.Passes n ⟨it, []⟩ it.items)
    ∧ (∀ remaining l carry step, remaining ≠ [] → nextSegment remaining l carry = .ok step →
        step.rest.length < remaining.length)
    ∧ ∀ remaining unit carry available, ∃ n, n ≤ available + 1
        ∧ ∃ r, (reserveLoop remaining unit carry available).Passes n 0 r := by
  refine ⟨?_, fun it => ⟨collectLoop.exists_passes ⟨it, []⟩, drainLoop.exists_passes ⟨it, []⟩⟩,
    fun _ _ _ _ => nextSegment_rest_lt, fun remaining unit carry available => ?_⟩
  · cases limit with
    | none => rfl
    | some limit =>
      rcases run_or_fails limit none text with ⟨pieces, hr⟩ | ⟨e, hf⟩
      · obtain ⟨it, hit, hitems⟩ := segmentTextIter_run hr
        rw [hit]
        refine ⟨_, segmentText_run hr, ?_⟩
        rw [hitems, map_map]
        rfl
      · rw [segmentTextIter_fails hf]
        exact segmentText_fails hf
  · obtain ⟨n, hn, hpasses⟩ := (reserveLoop remaining unit carry available).exists_passes 0
    exact ⟨n, hn, _, hpasses⟩

def longBlockStep : Step where
  segment := "```\nabc\n```".toList
  carry := openingFence "```".toList
  rest := "defghijk\n```".toList

theorem segmentTextIter_agrees_longBlock :
    nextSegment longBlock twelveChars none = .ok longBlockStep
      ∧ longBlockStep.rest.length < longBlock.length := by
  have h : nextSegment longBlock twelveChars none = .ok longBlockStep := by decide +kernel
  exact ⟨h, (segmentTextIter_agrees longBlock (some twelveChars)).2.2.1 longBlock twelveChars none
    longBlockStep (by decide) h⟩

end GtaClaw.Channel
