import GtaClaw.Tools.PatchFrame

/-!
# Diffs as they are written

A `Diff` is a way to turn one list of lines into another: hunks with the unchanged lines
in front of each, and the unchanged lines behind the last one. Its rendering is the
unified diff: two file headers, and for every hunk a header with its ranges and one line
for each of its entries.

`parse` reads the rendering line by line. The two meet in `hunk_rendered`: the lines of a
hunk are read as that hunk exactly if none of them looks like a file header.
-/

namespace GtaClaw.Tools

open Channel (Text utf8Len trim isWhitespace)
open Lib

/-- A line of a text whose lines end in a line feed alone. -/
def IsLine (line : Text) : Prop := '\n' ∉ line ∧ line.getLast? ≠ some '\r'

/-- The text that these lines make. -/
def unlines (lines : List Text) : Text := lines.flatMap (· ++ ['\n'])

/-- A hunk, and the unchanged lines between the one before and this one. -/
structure DiffHunk where
  gap : List Text
  body : List HunkLine
  /-- The text behind the second `@@`. -/
  heading : Text
  deriving DecidableEq, Repr

def DiffHunk.old (hunk : DiffHunk) : List Text := hunk.body.filterMap HunkLine.old?

def DiffHunk.new (hunk : DiffHunk) : List Text := hunk.body.filterMap HunkLine.new?

structure Diff where
  hunks : List DiffHunk
  /-- The unchanged lines behind the last hunk. -/
  rest : List Text
  deriving DecidableEq, Repr

def Diff.oldLines (diff : Diff) : List Text :=
  diff.hunks.flatMap (fun hunk => hunk.gap ++ hunk.old) ++ diff.rest

def Diff.newLines (diff : Diff) : List Text :=
  diff.hunks.flatMap (fun hunk => hunk.gap ++ hunk.new) ++ diff.rest

/-! ## The rendering -/

/-- How a diff is written: whether a count of one is left out, and what stands behind the
paths. -/
structure DiffStyle where
  brief : Bool
  /-- A tab and a time stamp, or nothing. -/
  oldStamp : Option Text
  newStamp : Option Text
  deriving DecidableEq, Repr

def stampText : Option Text → Text
  | none => []
  | some stamp => '\t' :: stamp

def renderNat (n : Nat) : Text := Nat.toDigits 10 n

def renderRange (brief : Bool) (start count : Nat) : Text :=
  renderNat start ++ if brief ∧ count = 1 then [] else ',' :: renderNat count

/-- The first line of a range of `count` lines with `before` lines in front of it. An empty
range is named by the line in front of it. -/
def rangeStart (before count : Nat) : Nat := if count = 0 then before else before + 1

/-- `@@ -start,count +start,count @@ heading`. -/
def renderHeader (brief : Bool) (oldBefore oldCount newBefore newCount : Nat) (heading : Text) :
    Text :=
  '@' :: '@' :: (' ' :: (('-' :: renderRange brief (rangeStart oldBefore oldCount) oldCount) ++
    ' ' :: (('+' :: renderRange brief (rangeStart newBefore newCount) newCount) ++ [' '])) ++
    '@' :: (['@'] ++ heading))

def renderLine : HunkLine → Text
  | .context text => ' ' :: text
  | .removed text => '-' :: text
  | .added text => '+' :: text

/-- The lines of the hunks, with so many lines of the two texts in front. -/
def renderHunks (brief : Bool) : Nat → Nat → List DiffHunk → List Text
  | _, _, [] => []
  | oldBefore, newBefore, hunk :: hunks =>
    renderHeader brief (oldBefore + hunk.gap.length) hunk.old.length
        (newBefore + hunk.gap.length) hunk.new.length hunk.heading ::
      (hunk.body.map renderLine ++
        renderHunks brief (oldBefore + hunk.gap.length + hunk.old.length)
          (newBefore + hunk.gap.length + hunk.new.length) hunks)

def renderLines (style : DiffStyle) (path : Text) (diff : Diff) : List Text :=
  ("--- a/".toList ++ path ++ stampText style.oldStamp) ::
    ("+++ b/".toList ++ path ++ stampText style.newStamp) ::
      renderHunks style.brief 0 0 diff.hunks

def render (style : DiffStyle) (path : Text) (diff : Diff) : Text :=
  unlines (renderLines style path diff)

example :
    render ⟨true, none, none⟩ "n".toList
      ⟨[⟨["a".toList], [.context "b".toList, .removed "c".toList, .added "C".toList], []⟩], []⟩ =
    "--- a/n\n+++ b/n\n@@ -2,2 +2,2 @@\n b\n-c\n+C\n".toList := by
  decide +kernel

/-! ## Numbers and ranges -/

variable {c : Char} {s : Parsing} {oldBefore oldCount newBefore newCount : Nat} {brief : Bool}
  {path : Text} {hunk : Hunk}

theorem isDigit_of_mem_renderNat {n : Nat} (h : c ∈ renderNat n) : c.isDigit = true :=
  Nat.isDigit_of_mem_toDigits (by decide) (by decide) h

theorem notMem_renderNat (hc : c.isDigit = false) (n : Nat) : c ∉ renderNat n := by
  intro h
  rw [isDigit_of_mem_renderNat h] at hc
  cases hc

open List

theorem notMem_renderRange (hc : c.isDigit = false) (hcomma : c ≠ ',') (brief : Bool)
    (start count : Nat) : c ∉ renderRange brief start count := by
  refine not_mem_append (notMem_renderNat hc _) ?_
  split
  · simp
  · simp only [mem_cons, not_or]
    exact ⟨hcomma, notMem_renderNat hc _⟩

theorem parseUsize_renderNat {n : Nat} (h : n ≤ usizeMax) : parseUsize (renderNat n) = some n := by
  obtain ⟨first, rest, hdigits⟩ := exists_cons_of_ne_nil
    (Nat.toDigits_ne_nil : Nat.toDigits 10 n ≠ [])
  have hplus : first ≠ '+' := by
    intro heq
    have hmem : first ∈ renderNat n := by
      rw [renderNat, hdigits]
      exact mem_cons_self
    exact notMem_renderNat (by decide) n (heq ▸ hmem)
  have hsign : (['+'].isPrefixOf? (renderNat n)).getD (renderNat n) = renderNat n := by
    rw [renderNat, hdigits, isPrefixOf?, if_neg (by simpa using hplus.symm)]
    rfl
  have hall : (renderNat n).all Char.isDigit = true :=
    all_eq_true.mpr (fun c hc => isDigit_of_mem_renderNat hc)
  have hvalue : Nat.ofDigitChars 10 (renderNat n) 0 = n :=
    Nat.ofDigitChars_toDigits (by decide) (by decide)
  have hempty : (renderNat n).isEmpty = false := by
    rw [renderNat, hdigits]
    rfl
  simp only [parseUsize, hsign, hall, hvalue, hempty, h, if_true, not_true, or_false,
    Bool.false_eq_true, if_false]

theorem parseRange_renderRange {start count : Nat} (hstart : start ≤ usizeMax)
    (hcount : count ≤ usizeMax) : parseRange (renderRange brief start count) = .ok (start, count) := by
  have hcomma : ',' ∉ renderNat start := notMem_renderNat (by decide) start
  unfold parseRange renderRange
  by_cases hone : brief = true ∧ count = 1
  · obtain ⟨hbrief, rfl⟩ := hone
    rw [if_pos ⟨hbrief, rfl⟩, append_nil, splitOnce_of_notMem hcomma]
    have hdigit : parseUsize ['1'] = some 1 := by decide
    simp only [Option.getD_none, parseUsize_renderNat hstart, hdigit]
  · rw [if_neg hone]
    have hcut : splitOnce [','] (renderNat start ++ ',' :: renderNat count) =
        some (renderNat start, renderNat count) := splitOnce_append hcomma (renderNat count)
    rw [hcut]
    simp only [Option.getD_some, parseUsize_renderNat hstart, parseUsize_renderNat hcount]

/-! ## Headers -/

/-- Taking off the white space around a text that neither begins nor ends with any. -/
theorem trim_around {before text behind : Text} (hbefore : ∀ c ∈ before, isWhitespace c = true)
    (hbehind : ∀ c ∈ behind, isWhitespace c = true)
    (hfirst : ∀ c ∈ text.head?, isWhitespace c = false)
    (hlast : ∀ c ∈ text.getLast?, isWhitespace c = false) :
    trim (before ++ (text ++ behind)) = text := by
  rw [trim, Channel.trimStart, dropWhile_append_of_pos hbefore]
  cases text with
  | nil =>
    rw [nil_append, dropWhile_eq_nil_iff.mpr hbehind]
    rfl
  | cons first tail =>
    rw [cons_append, dropWhile_cons_of_neg (by simp [hfirst first rfl]), ← cons_append, rdropWhile,
      reverse_append, dropWhile_append_of_pos fun c hc => hbehind c (mem_reverse.mp hc)]
    refine rdropWhile_eq_self_iff.mpr fun hne => ?_
    simp [hlast _ (getLast?_eq_some_getLast hne)]

theorem getLast?_renderRange (brief : Bool) (start count : Nat) :
    ∃ c, (renderRange brief start count).getLast? = some c ∧ c.isDigit = true := by
  have hlast : ∀ n, ∃ c, (renderNat n).getLast? = some c ∧ c.isDigit = true := by
    intro n
    cases h : (renderNat n).getLast? with
    | none => exact absurd (getLast?_eq_none_iff.mp h) Nat.toDigits_ne_nil
    | some c => exact ⟨c, rfl, isDigit_of_mem_renderNat (mem_of_getLast? h)⟩
  unfold renderRange
  split
  · rw [append_nil]
    exact hlast start
  obtain ⟨c, hc, hdigit⟩ := hlast count
  refine ⟨c, ?_, hdigit⟩
  rw [getLast?_append, getLast?_cons, hc]
  rfl

theorem parseHunkHeader_renderHeader
    (hold : oldBefore + oldCount < usizeMax) (hnew : newBefore + newCount < usizeMax)
    (heading : Text) :
    parseHunkHeader (renderHeader brief oldBefore oldCount newBefore newCount heading) =
      .ok ⟨oldBefore + 1, oldCount, newCount, []⟩ := by
  have hstart : ∀ before count, before + count < usizeMax → rangeStart before count ≤ usizeMax := by
    intro before count h
    unfold rangeStart
    split <;> omega
  generalize hr₁ : renderRange brief (rangeStart oldBefore oldCount) oldCount = r₁
  generalize hr₂ : renderRange brief (rangeStart newBefore newCount) newCount = r₂
  have holdRange : parseRange r₁ = .ok (rangeStart oldBefore oldCount, oldCount) :=
    hr₁ ▸ parseRange_renderRange (hstart _ _ hold) (by omega)
  have hnewRange : parseRange r₂ = .ok (rangeStart newBefore newCount, newCount) :=
    hr₂ ▸ parseRange_renderRange (hstart _ _ hnew) (by omega)
  have hclear : ∀ c : Char, c.isDigit = false → c ≠ ',' → c ∉ r₁ ∧ c ∉ r₂ := by
    intro c hdigit hcomma
    exact ⟨hr₁ ▸ notMem_renderRange hdigit hcomma _ _ _,
      hr₂ ▸ notMem_renderRange hdigit hcomma _ _ _⟩
  obtain ⟨last, hlast, hdigit⟩ := getLast?_renderRange brief (rangeStart newBefore newCount) newCount
  rw [hr₂] at hlast
  have hspace := Channel.isWhitespace_of_isDigit hdigit
  -- The ranges stand between the first two pairs of signs, with blanks around them.
  have hmark : "@@".toList = ['@', '@'] := rfl
  have hranges : splitOnce ['@', '@'] (' ' :: (('-' :: r₁) ++ ' ' :: (('+' :: r₂) ++ [' '])) ++
      '@' :: (['@'] ++ heading)) =
      some (' ' :: (('-' :: r₁) ++ ' ' :: (('+' :: r₂) ++ [' '])), heading) := by
    refine splitOnce_append ?_ heading
    obtain ⟨h₁, h₂⟩ := hclear '@' (by decide) (by decide)
    simp [h₁, h₂]
  have htrim : trim (' ' :: (('-' :: r₁) ++ ' ' :: (('+' :: r₂) ++ [' ']))) =
      ('-' :: r₁) ++ ' ' :: ('+' :: r₂) := by
    have haround : trim ([' '] ++ ((('-' :: r₁) ++ ' ' :: ('+' :: r₂)) ++ [' '])) =
        ('-' :: r₁) ++ ' ' :: ('+' :: r₂) := by
      refine trim_around (by simp; decide) (by simp; decide) (by rintro _ ⟨⟩; decide) ?_
      rw [getLast?_append, getLast?_cons, getLast?_cons, hlast]
      rintro _ ⟨⟩
      exact hspace
    rw [← haround]
    simp
  have hsplit : splitOnce [' '] (('-' :: r₁) ++ ' ' :: ('+' :: r₂)) =
      some ('-' :: r₁, '+' :: r₂) := by
    refine splitOnce_append ?_ ('+' :: r₂)
    obtain ⟨h₁, -⟩ := hclear ' ' (by decide) (by decide)
    simp [h₁]
  have hplus : trim ('+' :: r₂) = '+' :: r₂ := by
    refine Channel.trim_eq_self (by rintro _ ⟨⟩; decide) ?_
    rw [getLast?_cons, hlast]
    rintro _ ⟨⟩
    exact hspace
  have hline : ['@', '@'].isPrefixOf? (renderHeader brief oldBefore oldCount newBefore newCount
      heading) = some (' ' :: (('-' :: r₁) ++ ' ' :: (('+' :: r₂) ++ [' '])) ++
      '@' :: (['@'] ++ heading)) := by
    rw [renderHeader, hr₁, hr₂]
    exact isPrefixOf?_append ['@', '@'] _
  have hminus : ['-'].isPrefixOf? ('-' :: r₁) = some r₁ := isPrefixOf?_append ['-'] r₁
  have hsign : ['+'].isPrefixOf? ('+' :: r₂) = some r₂ := isPrefixOf?_append ['+'] r₂
  simp only [parseHunkHeader, hmark, hline, hranges, htrim, hsplit, hminus, hplus, hsign, holdRange,
    hnewRange, bind, Except.bind]
  unfold rangeStart
  by_cases hzero : oldCount = 0
  · simp [hzero]
  · simp [hzero]

/-! ## Entries -/

def HunkLine.text : HunkLine → Text
  | .context text => text
  | .removed text => text
  | .added text => text

/-- The rendered entry does not look like a file header. -/
def HunkLine.unambiguous : HunkLine → Bool
  | .context _ => true
  | .removed text => ("-- ".toList.isPrefixOf? text).isNone
  | .added text => ("++ ".toList.isPrefixOf? text).isNone

theorem stripEnd_append_right {c : Char} {xs ys : Text}
    (h : ys ≠ [] ∨ xs.getLast? ≠ some c) : stripEnd c (xs ++ ys) = xs ++ stripEnd c ys := by
  rcases eq_or_ne ys [] with rfl | hne
  · rw [append_nil, stripEnd_of_ne (h.resolve_left (absurd rfl))]
    exact (append_nil xs).symm
  · unfold stripEnd
    rw [getLast?_append_of_ne_nil _ hne]
    split
    · rw [dropLast_append_of_ne_nil hne]
    · rfl

theorem stripEnd_line (hc : c ≠ '\r') {text : Text} (htext : IsLine text) :
    stripEnd '\r' (c :: text) = c :: text := by
  rw [← singleton_append, stripEnd_append_right (.inr (by simpa using hc)),
    stripEnd_of_ne htext.2]

open Parsing

theorem push_entry (hunk : Hunk) (entry : HunkLine) :
    hunk.push (renderLine entry) = .ok { hunk with body := hunk.body ++ [entry] } := by
  cases entry <;> rfl

open HunkLine

/-- A line behind the hunk header becomes an entry of the hunk, unless it looks like a file
header. -/
theorem line_entry (hcurrent : s.current = some hunk)
    (hseen : s.seenHunkHeader = true) {entry : HunkLine} (hline : IsLine entry.text) :
    s.line path (renderLine entry) =
      if entry.unambiguous then
        .ok { s with current := some { hunk with body := hunk.body ++ [entry] } }
      else .error .multipleFiles := by
  have hstrip : stripEnd '\r' (renderLine entry) = renderLine entry := by
    cases entry <;> exact stripEnd_line (by decide) hline
  have hgit : ¬("diff ".toList.isPrefixOf (renderLine entry) = true ∨
      "index ".toList.isPrefixOf (renderLine entry) = true) := by
    cases entry <;> rintro (h | h) <;> cases h
  have hhunk : ¬"@@".toList.isPrefixOf (renderLine entry) = true := by
    cases entry <;> intro h <;> cases h
  have hclear : entry.unambiguous = (("--- ".toList.isPrefixOf? (renderLine entry)).isNone &&
      ("+++ ".toList.isPrefixOf? (renderLine entry)).isNone) := by
    cases entry with
    | context text | added text => exact (Bool.true_and _).symm
    | removed text => exact (Bool.and_true _).symm
  simp only [hclear, line, hstrip, if_neg hgit, if_neg hhunk, hcurrent, fileHeader, hseen, if_true,
    push_entry]
  cases "--- ".toList.isPrefixOf? (renderLine entry) with
  | some header => rfl
  | none =>
    cases "+++ ".toList.isPrefixOf? (renderLine entry) with
    | some header | none => rfl

/-- The entries of a hunk are read one by one, unless one of them looks like a header. -/
theorem body_rendered {s s' : Parsing} {body : List HunkLine}
    (hcurrent : s.current = some hunk) (hseen : s.seenHunkHeader = true)
    (hlines : ∀ entry ∈ body, IsLine entry.text) :
    (body.map renderLine).foldlM (line path) s = .ok s' ↔
      (∀ entry ∈ body, entry.unambiguous = true) ∧
        s' = { s with current := some { hunk with body := hunk.body ++ body } } := by
  induction body generalizing s hunk with
  | nil =>
    have hsame : { s with current := some { hunk with body := hunk.body ++ [] } } = s := by
      rw [append_nil, ← hcurrent]
    rw [hsame]
    constructor
    · intro h
      cases h
      exact ⟨by simp, rfl⟩
    · rintro ⟨-, rfl⟩
      rfl
  | cons entry body ih =>
    have hentry : IsLine entry.text := hlines entry mem_cons_self
    rw [map_cons, foldlM_cons, line_entry hcurrent hseen hentry]
    split_ifs with hclear
    · have hrest := ih (s := { s with current := some { hunk with body := hunk.body ++ [entry] } })
        rfl hseen (forall_mem_cons.mp hlines).2
      refine Iff.trans hrest ?_
      simp [hclear]
    · refine iff_of_false ?_ (fun h => hclear (h.1 entry mem_cons_self))
      intro h
      cases h

/-! ## Hunks -/

/-- The hunks that `parse` makes of the rendering, with so many lines in front. -/
def parsedHunks : Nat → List DiffHunk → List Hunk
  | _, [] => []
  | before, hunk :: hunks =>
    ⟨before + hunk.gap.length + 1, hunk.old.length, hunk.new.length, hunk.body⟩ ::
      parsedHunks (before + hunk.gap.length + hunk.old.length) hunks

def oldSide (hunks : List DiffHunk) : List Text := hunks.flatMap fun hunk => hunk.gap ++ hunk.old

def newSide (hunks : List DiffHunk) : List Text := hunks.flatMap fun hunk => hunk.gap ++ hunk.new

theorem line_renderHeader {heading : Text}
    (hold : oldBefore + oldCount < usizeMax) (hnew : newBefore + newCount < usizeMax)
    (hheading : heading.getLast? ≠ some '\r') :
    s.line path (renderHeader brief oldBefore oldCount newBefore newCount heading) =
      if s.all.length ≥ maxHunks then .error .tooManyHunks
      else .ok ⟨s.all, some ⟨oldBefore + 1, oldCount, newCount, []⟩, true⟩ := by
  have hheader : parseHunkHeader (renderHeader brief oldBefore oldCount newBefore newCount heading) =
      _ := parseHunkHeader_renderHeader hold hnew heading
  -- The line does not end in a carriage return.
  have hstrip : stripEnd '\r' (renderHeader brief oldBefore oldCount newBefore newCount heading) =
      renderHeader brief oldBefore oldCount newBefore newCount heading := by
    refine stripEnd_of_ne ?_
    rw [renderHeader, getLast?_cons_cons, getLast?_cons, getLast?_append]
    cases hlast : heading.getLast? with
    | none => simp [getLast?_eq_none_iff.mp hlast]
    | some c => simpa [getLast?_cons, hlast] using hheading
  -- It begins with two signs, so it is no other header.
  simp only [line, hstrip, hunkHeader, hheader]
  rfl

/-- Every hunk of the rendering is read as it is, if no entry looks like a header. -/
theorem hunks_rendered (path : Text) (brief : Bool) (hunks : List DiffHunk) (s : Parsing)
    (oldBefore newBefore : Nat) (hold : oldBefore + (oldSide hunks).length < usizeMax)
    (hnew : newBefore + (newSide hunks).length < usizeMax)
    (hcount : s.all.length + hunks.length ≤ maxHunks)
    (hheadings : ∀ hunk ∈ hunks, hunk.heading.getLast? ≠ some '\r')
    (hlines : ∀ hunk ∈ hunks, ∀ entry ∈ hunk.body, IsLine entry.text) :
    ∀ found, (∃ s', (renderHunks brief oldBefore newBefore hunks).foldlM (line path) s = .ok s' ∧
      s'.all = found) ↔
      (∀ hunk ∈ hunks, ∀ entry ∈ hunk.body, entry.unambiguous = true) ∧
        found = s.all ++ parsedHunks oldBefore hunks := by
  intro found
  induction hunks generalizing s oldBefore newBefore with
  | nil =>
    rw [parsedHunks, append_nil]
    constructor
    · rintro ⟨s', hs', hall⟩
      cases hs'
      exact ⟨by simp, hall.symm⟩
    · rintro ⟨-, rfl⟩
      exact ⟨s, rfl, rfl⟩
  | cons hunk hunks ih =>
    have hside : (oldSide (hunk :: hunks)).length =
        hunk.gap.length + hunk.old.length + (oldSide hunks).length := by
      simp [oldSide]
      omega
    have hside' : (newSide (hunk :: hunks)).length =
        hunk.gap.length + hunk.new.length + (newSide hunks).length := by
      simp [newSide]
      omega
    rw [length_cons] at hcount
    obtain ⟨first, hfirst⟩ : ∃ first : Hunk, first =
        ⟨oldBefore + hunk.gap.length + 1, hunk.old.length, hunk.new.length, []⟩ := ⟨_, rfl⟩
    have hheader : s.line path (renderHeader brief (oldBefore + hunk.gap.length) hunk.old.length
        (newBefore + hunk.gap.length) hunk.new.length hunk.heading) =
        .ok ⟨s.all, some first, true⟩ := by
      rw [line_renderHeader (by omega) (by omega) (hheadings hunk mem_cons_self),
        if_neg (by omega), hfirst]
    have hbody {s'} : (hunk.body.map renderLine).foldlM (line path) ⟨s.all, some first, true⟩ =
        .ok s' ↔ _ := body_rendered rfl rfl (hlines hunk mem_cons_self)
    rw [renderHunks, foldlM_cons, hheader, forall_mem_cons]
    simp only [bind, Except.bind, foldlM_append]
    by_cases hclear : ∀ entry ∈ hunk.body, entry.unambiguous = true
    · rw [hbody.mpr ⟨hclear, rfl⟩]
      have hall : all ⟨s.all, some { first with body := first.body ++ hunk.body }, true⟩ = s.all ++
          [⟨oldBefore + hunk.gap.length + 1, hunk.old.length, hunk.new.length, hunk.body⟩] := by
        rw [hfirst]
        rfl
      rw [ih _ (oldBefore + hunk.gap.length + hunk.old.length)
        (newBefore + hunk.gap.length + hunk.new.length) (by omega) (by omega)
        (by rw [hall, length_append, length_singleton]; omega)
        (forall_mem_cons.mp hheadings).2
        (forall_mem_cons.mp hlines).2, hall, append_assoc]
      rw [and_iff_right hclear]
      rfl
    · cases hfold : (hunk.body.map renderLine).foldlM (line path) ⟨s.all, some first, true⟩ with
      | error error => simp [hclear]
      | ok s' => exact absurd (hbody.mp hfold).1 hclear

end GtaClaw.Tools
