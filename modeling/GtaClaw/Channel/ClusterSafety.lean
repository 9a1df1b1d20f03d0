import GtaClaw.Channel.Segments

/-!
# Cluster safety

The scan of every segment starts afresh, so it knows nothing of the characters
in front of the remaining text. That is harmless: if the remaining text begins
at a boundary of the whole text, the two agree on every later boundary, also on
the parity of a run of regional indicators.

Two things are decided without the cluster rule. A cut that is moved in front of
a fence ends where the line ending in front of the fence begins, whatever
precedes it; and the text that is left is trimmed, whatever then comes first.
`cleanStep` says of the state before a step that neither goes wrong. A run is
safe exactly when all its steps are clean.
-/

namespace GtaClaw.Channel

open Lib List

/-! ## Boundaries of a text and of what is left of it -/

theorem foldl_nextRun_parity : ∀ (text : Text) (a b : Nat), a % 2 = b % 2 →
    text.foldl nextRun a % 2 = text.foldl nextRun b % 2
  | [], _, _, h => h
  | c :: text, a, b, h => by
    refine foldl_nextRun_parity text (nextRun a c) (nextRun b c) ?_
    unfold nextRun
    split
    · omega
    · rfl

/-- Only the parity of the run counts. -/
theorem isClusterBoundary_parity (previous : Option Char) (next : Char) {a b : Nat}
    (h : a % 2 = b % 2) :
    isClusterBoundary previous next a = isClusterBoundary previous next b := by
  unfold isClusterBoundary
  rw [h]

variable {text before rest : Text} {c : Char} {offset : Nat} {limit : OutputLimit}
  {carry closing : Option Fence} {pieces : List Piece}

theorem even_run_of_boundary (h : boundaryAt (before ++ c :: rest) before.length = true)
    (hc : isRegionalIndicator c = true) : before.foldl nextRun 0 % 2 = 0 := by
  rw [boundaryAt_junction] at h
  cases hl : before.getLast? with
  | none => rw [getLast?_eq_none_iff.mp hl]; rfl
  | some previous =>
    rw [hl] at h
    simp only [isClusterBoundary, hc, Bool.true_and] at h
    split at h
    · cases h
    split at h
    · cases h
    · simp only [Bool.not_eq_true', beq_eq_false_iff_ne] at h
      omega

/-- **Behind a boundary the remaining text knows all it needs.** -/
theorem boundaryAt_append (hpos : 0 < offset)
    (h : boundaryAt (before ++ rest) before.length = true) :
    boundaryAt (before ++ rest) (before.length + offset) = boundaryAt rest offset := by
  have hget : (before ++ rest)[before.length + offset]? = rest[offset]? := by
    rw [getElem?_append_right (by omega), Nat.add_sub_cancel_left]
  have htake : (before ++ rest).take (before.length + offset) = before ++ rest.take offset := by
    rw [take_append, take_of_length_le (by omega), Nat.add_sub_cancel_left]
  rw [boundaryAt, boundaryAt, hget, htake]
  cases rest with
  | nil => simp
  | cons c rest =>
    cases (c :: rest)[offset]? with
    | none => rfl
    | some next =>
      obtain ⟨n, rfl⟩ := Nat.exists_eq_add_of_lt hpos
      rw [Nat.zero_add, take_succ_cons]
      have hlast : (before ++ c :: rest.take n).getLast? = (c :: rest.take n).getLast? := by
        rw [getLast?_append]; rfl
      rw [hlast]
      refine isClusterBoundary_parity _ _ ?_
      rw [foldl_append, foldl_cons]
      refine foldl_nextRun_parity _ _ _ ?_
      by_cases hc : isRegionalIndicator c = true
      · have heven := even_run_of_boundary h hc
        rw [nextRun, nextRun, if_pos hc, if_pos hc]
        omega
      · rw [nextRun, nextRun, if_neg hc, if_neg hc]

/-! ## What goes wrong -/

/-- The cut ends behind a joiner, with nothing but a line ending between it and a fence. -/
def joinerBeforeFence (text : Text) (split : Nat) : Bool :=
  decide ((text.take split).getLast? = some zeroWidthJoiner)
    && (openingFence (firstLine '\n' (stripOneNewline (text.drop split)))).isSome

/-- Something was trimmed and what then comes first binds to its predecessor. -/
def binderBehindGap (closing : Option Fence) (rest : Text) : Bool :=
  !(gap closing rest).isEmpty && ((restAfter closing rest).head?.any bindsToPrevious)

/-- Neither of the two happens in the step from this state. -/
def cleanStep (limit : OutputLimit) (carry : Option Fence) (text : Text) : Bool :=
  match nextPlacement text limit carry with
  | .ok (.cut split closing) =>
    !joinerBeforeFence text split && !binderBehindGap closing (text.drop split)
  | _ => true

def cleanRun (limit : OutputLimit) (pieces : List Piece) : Bool :=
  everyStep (cleanStep limit) pieces

/-- Every body begins and ends at a cluster boundary of the whole text. -/
def clusterSafe (text : Text) : Nat → List Piece → Bool
  | _, [] => true
  | start, piece :: pieces =>
    boundaryAt text start && boundaryAt text (start + piece.body.length)
      && clusterSafe text (start + piece.source.length) pieces

theorem not_binds_of_lineEnding (h : c = '\n' ∨ c = '\r') :
    bindsToPrevious c = false ∧ isRegionalIndicator c = false := by
  rcases h with rfl | rfl <;> decide

/-- In front of a line ending only a joiner forbids a break. -/
theorem boundaryAt_lineEnding
    (hc : text[offset]? = some c) (hend : c = '\n' ∧ (offset = 0 ∨ text[offset - 1]? ≠ some '\r')
      ∨ c = '\r') :
    boundaryAt text offset = !decide ((text.take offset).getLast? = some zeroWidthJoiner) := by
  obtain ⟨hb, hr⟩ := not_binds_of_lineEnding (hend.imp And.left id)
  rw [boundaryAt, hc]
  cases hl : (text.take offset).getLast? with
  | none => rfl
  | some previous =>
    have hcrlf : ¬ (previous = '\r' ∧ c = '\n') := by
      intro hboth
      rcases hboth with ⟨rfl, rfl⟩
      have hlt : offset < text.length := (List.getElem?_eq_some_iff.mp hc).1
      have hlast := getElem?_eq_getElem (show offset - 1 < text.length by omega)
      rw [getLast?_take, hlast] at hl
      rcases hend with ⟨_, h0 | hne⟩ | h
      · simp [h0] at hl
      · rw [hlast] at hne
        simp_all
      · cases h
    simp only [isClusterBoundary, hb, hr, Bool.false_and, Bool.not_false, Bool.false_eq_true,
      if_false, Option.some.injEq]
    by_cases hj : previous = zeroWidthJoiner
    · simp [hj]
    · simp [hcrlf]

theorem stripOneNewline_drop {lineStart e : Nat} (h : lineEndingBefore text lineStart = some e) :
    stripOneNewline (text.drop e) = text.drop lineStart := by
  obtain ⟨cr, rfl | rfl, hdrop⟩ := lineEndingBefore_drop h
  · rw [hdrop]
    rfl
  · rw [hdrop]
    rfl

/-- **A cut is at a boundary unless it was moved behind a joiner.** -/
theorem boundaryAt_cut {split : Nat}
    (h : nextPlacement text limit carry = .ok (.cut split closing)) :
    boundaryAt text split = !joinerBeforeFence text split := by
  obtain ⟨_, _, _, _, budget, hceil, hplace⟩ := nextPlacement_good h
  rcases placeSplit_cases hplace with ⟨rfl, _, _⟩ | ⟨opened, ho, hr, _⟩
  · have hcut := chooseBreak_cut (scanWindow_sound text limit.unit budget).1 hceil
    obtain ⟨o, ho⟩ : ∃ o, o = chooseBreak (scanWindow text limit.unit budget) budget := ⟨_, rfl⟩
    rw [← ho] at hcut ⊢
    rw [hcut.boundary, eq_comm, Bool.not_eq_true', joinerBeforeFence, Bool.and_eq_false_iff]
    by_cases hj : (text.take o).getLast? = some zeroWidthJoiner
    · -- a joiner in front of a chosen cut: the text ends there
      right
      have hend : ¬ o < text.length := fun hlt => by
        have hbound := hcut.boundary
        rw [boundaryAt, getElem?_eq_getElem hlt, hj] at hbound
        simp [isClusterBoundary] at hbound
      rw [drop_eq_nil_of_le (by omega)]
      decide
    · exact Or.inl (decide_eq_false hj)
  · obtain ⟨_, lineStart, hl, he⟩ := relocation_spec hr
    have hopen := (fenceOpenAt_opened ho hl).2
    rw [joinerBeforeFence, stripOneNewline_drop he, hopen, Option.isSome_some, Bool.and_true]
    rcases lineEndingBefore_spec he with ⟨_, hn, hcr⟩ | ⟨_, hcr, _⟩
    · exact boundaryAt_lineEnding hn (Or.inl ⟨rfl, hcr⟩)
    · exact boundaryAt_lineEnding hcr (Or.inr rfl)

theorem whitespace_neutral (h : isWhitespace c = true) :
    c ≠ zeroWidthJoiner ∧ isRegionalIndicator c = false := by
  constructor
  · rintro rfl
    revert h
    decide
  · simp only [isRegionalIndicator, Bool.and_eq_false_iff, decide_eq_false_iff_not]
    simp only [isWhitespace, Bool.or_eq_true, Bool.and_eq_true, decide_eq_true_eq, beq_iff_eq] at h
    omega

/-- The last trimmed character and the first kept one are not the halves of a line ending. -/
theorem gap_not_crlf {tail : Text} {w : Char}
    (hrest : restAfter closing rest = c :: tail) (hw : (gap closing rest).getLast? = some w) :
    ¬ (w = '\r' ∧ c = '\n') := by
  intro hboth
  rcases hboth with ⟨rfl, rfl⟩
  cases closing with
  | none =>
    have hhead : isWhitespace '\n' = false := by
      have := head?_dropWhile_not isWhitespace rest
      rw [show rest.dropWhile isWhitespace = '\n' :: tail from hrest] at this
      exact this
    revert hhead
    decide
  | some fence =>
    rcases gap_some fence rest with h | h | h <;> rw [h] at hw <;> revert hw <;> decide

/-- **The next body begins at a boundary unless a binding character follows the gap.** -/
theorem boundaryAt_gap (closing : Option Fence)
    (h : boundaryAt (before ++ rest) before.length = true) (hne : restAfter closing rest ≠ []) :
    boundaryAt (before ++ rest) (before.length + (gap closing rest).length)
      = !binderBehindGap closing rest := by
  obtain ⟨c, tail, hrest⟩ := exists_cons_of_ne_nil hne
  cases hw : (gap closing rest).getLast? with
  | none =>
    have hgap := getLast?_eq_none_iff.mp hw
    rw [binderBehindGap, hgap, length_nil, Nat.add_zero, h]
    rfl
  | some w =>
    obtain ⟨front, hfront⟩ := getLast?_eq_some_iff.mp hw
    have hpos : 0 < (gap closing rest).length := by simp [hfront]
    have hjunction := boundaryAt_junction (gap closing rest) tail c
    rw [← hrest, gap_append] at hjunction
    obtain ⟨hj, hri⟩ := whitespace_neutral
      (gap_whitespace closing rest w (mem_of_getLast? hw))
    have hrun : (gap closing rest).foldl nextRun 0 = 0 := by
      rw [hfront, foldl_append, foldl_cons, nextRun, hri]
      rfl
    have hempty : (gap closing rest).isEmpty = false := by simp [hfront]
    rw [boundaryAt_append hpos h, hjunction, hw, hrun, binderBehindGap, hempty, hrest]
    simp only [isClusterBoundary, hj, gap_not_crlf hrest hw, false_or, if_false, Bool.not_false,
      Bool.true_and, head?_cons, Option.any_some]
    cases bindsToPrevious c <;> simp

/-! ## Runs -/

theorem boundaryAt_of_clusterSafe {start : Nat} (hr : Run limit carry rest pieces) (hne : rest ≠ [])
    (h : clusterSafe text start pieces = true) : boundaryAt text start = true := by
  cases hr with
  | done => exact absurd rfl hne
  | step _ _ _ =>
    rw [clusterSafe, Bool.and_eq_true, Bool.and_eq_true] at h
    exact h.1.1

/-- **A step is clean exactly when the boundaries it makes are boundaries of the whole text**: the
end of its body, and the start of the next one if anything is left. -/
theorem cleanStep_cut {split : Nat} (hp : nextPlacement text limit carry = .ok (.cut split closing))
    (hb : boundaryAt (before ++ text) before.length = true) :
    cleanStep limit carry text = true ↔
      boundaryAt (before ++ text) (before.length + split) = true
      ∧ (restAfter closing (text.drop split) ≠ [] →
        boundaryAt (before ++ text)
          (before.length + split + (gap closing (text.drop split)).length) = true) := by
  obtain ⟨_, hpos, hle, _⟩ := nextPlacement_good hp
  have hcut : boundaryAt (before ++ text) (before.length + split)
      = !joinerBeforeFence text split := by
    rw [boundaryAt_append hpos hb, boundaryAt_cut hp]
  obtain ⟨front, hfront⟩ : ∃ front, front = before ++ text.take split := ⟨_, rfl⟩
  have hflen : before.length + split = front.length := by
    rw [hfront, length_append, length_take, Nat.min_eq_left hle]
  have htext : before ++ text = front ++ text.drop split := by
    rw [hfront, append_assoc, take_append_drop]
  rw [cleanStep, hp, Bool.and_eq_true, ← hcut]
  refine and_congr_right (fun hend => ?_)
  by_cases hnil : restAfter closing (text.drop split) = []
  · simp [binderBehindGap, hnil]
  rw [hflen, htext] at hend ⊢
  rw [boundaryAt_gap closing hend hnil]
  exact ⟨fun h _ => h, fun h => h hnil⟩

/-- **A run behind a boundary is safe exactly when its steps are clean.** -/
theorem clusterSafe_iff_cleanRun (h : Run limit carry rest pieces) (before : Text)
    (hb : boundaryAt (before ++ rest) before.length = true) :
    clusterSafe (before ++ rest) before.length pieces = true ↔ cleanRun limit pieces = true := by
  induction h generalizing before with
  | done => exact Iff.rfl
  | @step carry text p pieces hne hp hr ih =>
    rw [cleanRun, everyStep_run _ hne hp hr, clusterSafe, hb, Bool.true_and, Bool.and_eq_true,
      Bool.and_eq_true]
    cases p with
    | whole =>
      have hend : boundaryAt (before ++ text) (before.length + text.length) = true := by
        rw [boundaryAt, getElem?_eq_none (by rw [length_append])]
      have hclean : cleanStep limit carry text = true := by rw [cleanStep, hp]
      rw [run_nil hr rfl, hclean]
      exact ⟨fun _ => ⟨rfl, rfl⟩, fun _ => ⟨hend, rfl⟩⟩
    | cut split closing =>
      obtain ⟨_, _, hle, _⟩ := nextPlacement_good hp
      have hbody : ((Placement.cut split closing).piece text carry).body.length = split := by
        show (text.take split).length = split
        rw [length_take, Nat.min_eq_left hle]
      have hsource : before.length + ((Placement.cut split closing).piece text carry).source.length
          = before.length + split + (gap closing (text.drop split)).length := by
        rw [Piece.source, length_append, hbody, Nat.add_assoc]
        rfl
      -- the text in front of the next piece
      have htext : before ++ text = before ++ ((Placement.cut split closing).piece text carry).source
          ++ restAfter closing (text.drop split) := by
        rw [append_assoc]
        exact congrArg _ (Placement.piece_source text carry (.cut split closing)).symm
      have hih := ih (before ++ ((Placement.cut split closing).piece text carry).source)
      rw [show ((Placement.cut split closing).step text carry).rest
        = restAfter closing (text.drop split) from rfl, ← htext, length_append, hsource] at hih
      rw [hsource, hbody, cleanStep_cut hp hb, and_assoc]
      refine and_congr_right (fun _ => ?_)
      by_cases hrest : restAfter closing (text.drop split) = []
      · rw [run_nil hr hrest]
        exact ⟨fun _ => ⟨fun h => absurd hrest h, rfl⟩, fun _ => rfl⟩
      constructor
      · intro hsafe
        have hnext := boundaryAt_of_clusterSafe hr hrest hsafe
        exact ⟨fun _ => hnext, (hih hnext).mp hsafe⟩
      · intro hboth
        rcases hboth with ⟨hnext, hclean⟩
        exact (hih (hnext hrest)).mpr hclean

theorem boundaryAt_zero (text : Text) : boundaryAt text 0 = true := by
  rw [boundaryAt]
  cases text[0]? <;> rfl

/-- **Segmentation keeps clusters whole exactly when no step is unclean.** -/
theorem segmentText_clusterSafe_iff {text : Text} {limit : OutputLimit} {segments : List Text}
    (h : segmentText text (some limit) = .ok segments) :
    ∃ pieces, Run limit none text pieces ∧ segments = pieces.map Piece.segment
      ∧ (clusterSafe text 0 pieces = true ↔ cleanRun limit pieces = true) := by
  obtain ⟨pieces, hr, hs⟩ := exists_run h
  exact ⟨pieces, hr, hs, clusterSafe_iff_cleanRun hr [] (boundaryAt_zero text)⟩

theorem segmentText_clusterSafe_longBlock : ∃ pieces, Run twelveChars none longBlock pieces
    ∧ longBlockSegments = pieces.map Piece.segment
    ∧ (clusterSafe longBlock 0 pieces = true ↔ cleanRun twelveChars pieces = true) :=
  segmentText_clusterSafe_iff segmentText_longBlock

/-- A space with an accent on it: the space goes, the accent starts the next segment. -/
def accentedSpace : Text := "aaaa \u0301bbb".toList

def fiveChars : OutputLimit := ⟨5, .chars, by decide, by decide⟩

/-- A joiner in front of a fence: the cut is moved right behind it. -/
def joinedFence : Text := "ab\u200d\n```\nabcdef\n```".toList

def fourteenChars : OutputLimit := ⟨14, .chars, by decide, by decide⟩

/-- **Segmentation can cut through a cluster**, by trimming and by moving a cut. -/
theorem segmentText_cuts_clusters :
    (segmentText accentedSpace (some fiveChars) = .ok ["aaaa".toList, "\u0301bbb".toList]
      ∧ ∃ pieces, Run fiveChars none accentedSpace pieces
        ∧ clusterSafe accentedSpace 0 pieces = false)
    ∧ segmentText joinedFence (some fourteenChars)
        = .ok ["ab\u200d".toList, "```\nabcdef\n```".toList]
      ∧ ∃ pieces, Run fourteenChars none joinedFence pieces
        ∧ clusterSafe joinedFence 0 pieces = false := by
  have h₁ : nextPlacement accentedSpace fiveChars none = .ok (.cut 4 none) := by decide +kernel
  have h₂ : nextPlacement "\u0301bbb".toList fiveChars none = .ok .whole := by decide +kernel
  have h₃ : nextPlacement joinedFence fourteenChars none = .ok (.cut 3 none) := by decide +kernel
  have h₄ : nextPlacement "```\nabcdef\n```".toList fourteenChars none = .ok .whole := by
    decide +kernel
  refine ⟨⟨by decide +kernel, _, .step (by decide) h₁ (.step (by decide) h₂ .done), ?_⟩,
    by decide +kernel, _, .step (by decide) h₃ (.step (by decide) h₄ .done), ?_⟩
  · decide +kernel
  · decide +kernel

end GtaClaw.Channel
