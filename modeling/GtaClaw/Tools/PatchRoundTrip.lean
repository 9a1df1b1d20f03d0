import GtaClaw.Tools.PatchRender

/-!
# Every correct diff applies

A diff that is rendered, parsed and applied makes the change it was made for, if `parse`
can tell its lines apart. `render_applies_iff` says exactly when that is: no removed line
begins with `-- ` and no added line with `++ `, the result is not a single empty line, and
the path of the file survives in a file header.
-/

namespace GtaClaw.Tools

open Channel (Text utf8Len trim isWhitespace)
open Lib
open List hiding all

/-! ## Paths in file headers -/

/-- A path that a file header gives back. -/
structure HeaderPath (path : Text) : Prop where
  noLineFeed : '\n' ∉ path
  noTab : '\t' ∉ path
  noBackslash : '\\' ∉ path
  noSpaceBehind : ∀ c ∈ path.getLast?, isWhitespace c = false

theorem getLast?_trim {text : Text} {c : Char} (h : (trim text).getLast? = some c) :
    isWhitespace c = false := by
  have hne : trim text ≠ [] := by
    intro hnil
    rw [hnil] at h
    cases h
  have hlast := rdropWhile_last_not isWhitespace (Channel.trimStart text) hne
  rw [getLast?_eq_some_getLast hne] at h
  cases h
  exact Bool.eq_false_iff.mpr hlast

variable {path : Text}

/-- Whatever header is accepted, the path has none of the characters it cannot carry. -/
theorem verifyHeaderPath_ok {header : Text} (h : verifyHeaderPath header path = .ok ())
    (hheader : '\n' ∉ header) : HeaderPath path := by
  unfold verifyHeaderPath at h
  dsimp only at h
  split at h
  · cases h
  split at h
  · rename_i hpath
    generalize hcandidate : trim (header.takeWhile (· ≠ '\t')) = candidate at hpath
    have hsuffix : path <:+ candidate.map fun c => if c = '\\' then '/' else c := by
      rw [← hpath]
      generalize candidate.map (fun c => if c = '\\' then '/' else c) = normalized
      cases ha : "a/".toList.isPrefixOf? normalized with
      | some rest => exact ⟨_, (eq_append_of_isPrefixOf? ha).symm⟩
      | none =>
        cases hb : "b/".toList.isPrefixOf? normalized with
        | some rest => exact ⟨_, (eq_append_of_isPrefixOf? hb).symm⟩
        | none => exact suffix_rfl
    -- A character of the path is one of the header, or the slash for a backslash.
    have hchar : ∀ c ∈ path, c = '/' ∨ c ≠ '\\' ∧ c ∈ header.takeWhile (· ≠ '\t') := by
      intro c hc
      obtain ⟨d, hd, rfl⟩ := mem_map.mp (hsuffix.subset hc)
      by_cases hback : d = '\\'
      · exact .inl (by simp [hback])
      refine .inr ⟨by simp [hback], ?_⟩
      rw [← hcandidate] at hd
      simpa [hback] using Channel.mem_of_mem_trim hd
    refine ⟨fun hmem => ?_, fun hmem => ?_, fun hmem => ?_, fun c hc => ?_⟩
    · rcases hchar '\n' hmem with h | ⟨-, h⟩
      · exact absurd h (by decide)
      · exact hheader ((takeWhile_sublist _).subset h)
    · rcases hchar '\t' hmem with h | ⟨-, h⟩
      · exact absurd h (by decide)
      · exact absurd (mem_takeWhile_imp h) (by decide)
    · rcases hchar '\\' hmem with h | ⟨h, -⟩
      · exact absurd h (by decide)
      · exact h rfl
    · have hne : path ≠ [] := by
        rintro rfl
        cases hc
      obtain ⟨before, hbefore⟩ := hsuffix
      have hlast := congrArg getLast? hbefore
      rw [getLast?_append_of_ne_nil _ hne, getLast?_map, hc] at hlast
      cases hend : candidate.getLast? with rw [hend] at hlast
      | none => cases hlast
      | some d =>
        have hspace : isWhitespace d = false := getLast?_trim (hcandidate ▸ hend)
        cases Option.some.inj hlast
        dsimp only
        split
        · decide
        · exact hspace
  · cases h

theorem verifyHeaderPath_rendered (h : HeaderPath path) {side : Char}
    (hside : side = 'a' ∨ side = 'b') (stamp : Option Text) :
    verifyHeaderPath (stripEnd '\r' (side :: '/' :: path ++ stampText stamp)) path = .ok () := by
  have hchars : ∀ c ∈ side :: '/' :: path, c ≠ '\t' ∧ c ≠ '\\' := by
    rw [forall_mem_cons, forall_mem_cons]
    refine ⟨?_, by decide, fun c hc => ⟨?_, ?_⟩⟩
    · rcases hside with rfl | rfl <;> decide
    · rintro rfl
      exact h.noTab hc
    · rintro rfl
      exact h.noBackslash hc
  have hplain : ∀ c ∈ side :: '/' :: path, decide (c ≠ '\t') = true :=
    fun c hc => decide_eq_true (hchars c hc).1
  have hlast : ∀ c ∈ (side :: '/' :: path).getLast?, isWhitespace c = false := by
    intro c hc
    rw [getLast?_cons_cons] at hc
    cases hpath : path.getLast? with
    | none =>
      rw [getLast?_eq_none_iff.mp hpath] at hc
      cases hc
      decide
    | some d =>
      rw [getLast?_cons, hpath] at hc
      cases hc
      exact h.noSpaceBehind _ hpath
  have hname : (stripEnd '\r' (side :: '/' :: path ++ stampText stamp)).takeWhile (· ≠ '\t') =
      side :: '/' :: path := by
    cases stamp with
    | none =>
      have hreturn : (side :: '/' :: path).getLast? ≠ some '\r' := by
        intro heq
        exact absurd (hlast '\r' heq) (by decide)
      rw [stampText, append_nil, stripEnd_of_ne hreturn]
      exact takeWhile_eq_self_iff.mpr hplain
    | some stamp =>
      rw [stampText, append_cons, stripEnd_append_right (.inr (by rw [getLast?_concat]; decide)),
        append_assoc, takeWhile_append_of_pos hplain, singleton_append,
        takeWhile_cons_of_neg (by decide), append_nil]
  have htrim : trim (side :: '/' :: path) = side :: '/' :: path := by
    refine Channel.trim_eq_self ?_ hlast
    rcases hside with rfl | rfl <;> rintro _ ⟨⟩ <;> decide
  have hmap : (side :: '/' :: path).map (fun c => if c = '\\' then '/' else c) =
      side :: '/' :: path := by
    refine (map_congr_left (fun c hc => ?_)).trans (map_id _)
    exact if_neg (hchars c hc).2
  unfold verifyHeaderPath
  simp only [hname, htrim, hmap]
  have hnull : ¬side :: '/' :: path = "/dev/null".toList := by
    intro heq
    rcases hside with rfl | rfl <;> cases heq
  rw [if_neg hnull]
  rcases hside with rfl | rfl
  · have hstrip : "a/".toList.isPrefixOf? ('a' :: '/' :: path) = some path :=
      isPrefixOf?_append ['a', '/'] path
    simp only [hstrip, Option.some_or, Option.getD_some, if_true]
  have hstrip : "b/".toList.isPrefixOf? ('b' :: '/' :: path) = some path :=
    isPrefixOf?_append ['b', '/'] path
  have hother : "a/".toList.isPrefixOf? ('b' :: '/' :: path) = none := rfl
  simp only [hstrip, hother, Option.none_or, Option.getD_some, if_true]

open Parsing

theorem line_fileHeader {s : Parsing} (hseen : s.seenHunkHeader = false)
    {sign : Text} (hsign : sign = "--- ".toList ∨ sign = "+++ ".toList) (name : Text) :
    s.line path (sign ++ name) =
      (verifyHeaderPath (stripEnd '\r' name) path).map fun _ => s := by
  have hstrip : stripEnd '\r' (sign ++ name) = sign ++ stripEnd '\r' name := by
    refine stripEnd_append_right (.inr ?_)
    rcases hsign with rfl | rfl <;> decide
  rcases hsign with rfl | rfl
  · simp only [line, hstrip, isPrefixOf?_append, fileHeader, hseen, Bool.false_eq_true, if_false]
  · have hminus : "--- ".toList.isPrefixOf? ("+++ ".toList ++ stripEnd '\r' name) = none := rfl
    simp only [line, hstrip, hminus, isPrefixOf?_append, fileHeader, hseen,
      Bool.false_eq_true, if_false]

/-! ## Texts of lines -/

theorem unlines_cons (line : Text) (lines : List Text) :
    unlines (line :: lines) = line ++ '\n' :: unlines lines := by
  simp [unlines]

variable {lines : List Text} {diff : Diff}

theorem unlines_eq_intercalate (h : lines ≠ []) :
    unlines lines = ['\n'].intercalate lines ++ ['\n'] := by
  induction lines with
  | nil => exact absurd rfl h
  | cons line rest ih =>
    cases rest with
    | nil => simp [unlines]
    | cons next rest =>
      rw [unlines_cons, ih (by simp)]
      simp

theorem rawLines_unlines (hlines : ∀ line ∈ lines, '\n' ∉ line) :
    rawLines (unlines lines) = lines.map (· ++ ['\n']) := by
  induction lines with
  | nil => rfl
  | cons line rest ih =>
    rw [unlines_cons, rawLines, splitInclusive_line (hlines line mem_cons_self)]
    exact congrArg _ (ih (forall_mem_cons.mp hlines).2)

theorem fileLines_unlines (hlines : ∀ line ∈ lines, IsLine line) :
    fileLines (unlines lines) = lines := by
  rw [fileLines_eq, rawLines_unlines (fun line hmem => (hlines line hmem).1), map_map]
  refine (map_congr_left (fun line hmem => ?_)).trans (map_id _)
  rw [Function.comp_apply, content, stripEnd_append, stripEnd_of_ne (hlines line hmem).2]
  rfl

theorem trailingNewline_unlines (h : lines ≠ []) : trailingNewline (unlines lines) = true := by
  rw [unlines_eq_intercalate h]
  simp [trailingNewline]

theorem containsCrlf_cons_cons (a b : Char) (rest : Text) :
    containsCrlf (a :: b :: rest) =
      (decide (a = '\r' ∧ b = '\n') || containsCrlf (b :: rest)) := by
  simp [containsCrlf, eq_comm]

theorem containsCrlf_line {line : Text} (hline : IsLine line) (rest : Text) :
    containsCrlf (line ++ '\n' :: rest) = containsCrlf ('\n' :: rest) := by
  induction line with
  | nil => rfl
  | cons c line ih =>
    obtain ⟨hclear, hreturn⟩ := hline
    cases line with
    | nil =>
      have hc : c ≠ '\r' := fun heq => hreturn (by rw [heq]; rfl)
      rw [singleton_append, containsCrlf_cons_cons]
      simp [hc]
    | cons d line =>
      have hd : d ≠ '\n' := fun heq => hclear (heq ▸ mem_cons_of_mem _ mem_cons_self)
      have hrest := ih ⟨fun hmem => hclear (mem_cons_of_mem _ hmem), hreturn⟩
      rw [cons_append, cons_append, containsCrlf_cons_cons, ← cons_append, hrest]
      simp [hd]

theorem containsCrlf_newline (rest : Text) : containsCrlf ('\n' :: rest) = containsCrlf rest := by
  cases rest with
  | nil => rfl
  | cons c rest =>
    rw [containsCrlf_cons_cons]
    simp

theorem lineEnding_unlines (hlines : ∀ line ∈ lines, IsLine line) :
    lineEnding (unlines lines) = .lf := by
  have hnone : containsCrlf (unlines lines) = false := by
    induction lines with
    | nil => rfl
    | cons line rest ih =>
      rw [unlines_cons, containsCrlf_line (hlines line mem_cons_self), containsCrlf_newline]
      exact ih (forall_mem_cons.mp hlines).2
  rw [lineEnding, hnone]
  rfl

/-- The lines are put together again, unless all there is is one empty line. -/
theorem joinLines_eq_unlines (hne : lines ≠ []) (hone : lines ≠ [[]]) :
    joinLines .lf true lines = unlines lines := by
  have hjoined : ¬(LineEnding.lf.asStr.intercalate lines).isEmpty = true := by
    rcases lines with _ | ⟨line, _ | ⟨next, rest⟩⟩
    · exact absurd rfl hne
    · have hline : line ≠ [] := fun heq => hone (by rw [heq])
      simpa using hline
    · simp [LineEnding.asStr]
  rw [joinLines, if_pos ⟨rfl, hjoined⟩, unlines_eq_intercalate hne]
  rfl

theorem joinLines_ne_newline (lines : List Text) : joinLines .lf true lines ≠ ['\n'] := by
  unfold joinLines
  dsimp only
  split_ifs with hjoined
  · exact fun h => hjoined.2 (isEmpty_iff.mpr (append_left_eq_self.mp h))
  · intro h
    rw [h] at hjoined
    exact hjoined ⟨rfl, by decide⟩

/-! ## The two sides of a diff -/

theorem text_mem_sides {hunk : DiffHunk} (hhunk : hunk ∈ diff.hunks)
    {entry : HunkLine} (hentry : entry ∈ hunk.body) :
    entry.text ∈ diff.oldLines ++ diff.newLines := by
  have hside : ∀ (side : HunkLine → Option Text) {text : Text}, side entry = some text →
      text ∈ (diff.hunks.flatMap fun hunk => hunk.gap ++ hunk.body.filterMap side) ++ diff.rest :=
    fun side _ htext => mem_append_left _ (mem_flatMap.mpr ⟨hunk, hhunk,
      mem_append_right _ (mem_filterMap.mpr ⟨entry, hentry, htext⟩)⟩)
  cases entry with
  | context text | removed text => exact mem_append_left _ (hside HunkLine.old? rfl)
  | added text => exact mem_append_right _ (hside HunkLine.new? rfl)

theorem renderHunks_notMem {brief : Bool} {hunks : List DiffHunk} {oldBefore newBefore : Nat}
    (hheadings : ∀ hunk ∈ hunks, '\n' ∉ hunk.heading)
    (hlines : ∀ hunk ∈ hunks, ∀ entry ∈ hunk.body, '\n' ∉ entry.text) :
    ∀ line ∈ renderHunks brief oldBefore newBefore hunks, '\n' ∉ line := by
  induction hunks generalizing oldBefore newBefore with
  | nil => simp [renderHunks]
  | cons hunk hunks ih =>
    rw [forall_mem_cons] at hheadings hlines
    have hclear : ∀ start count, '\n' ∉ renderRange brief start count :=
      fun start count => notMem_renderRange (by decide) (by decide) brief start count
    refine forall_mem_cons.mpr ⟨by simp [renderHeader, hclear, hheadings.1],
      forall_mem_append.mpr ⟨forall_mem_map.mpr fun entry hentry => ?_, ih hheadings.2 hlines.2⟩⟩
    have htext := hlines.1 entry hentry
    cases entry <;> simpa [renderLine, HunkLine.text] using htext

/-- The parsed hunks cut the old lines, and make the new ones of them. -/
theorem cut_parsedHunks (hunks : List DiffHunk) (rest : List Text) (before : Nat) :
    Cut before (parsedHunks before hunks) (oldSide hunks ++ rest) (newSide hunks ++ rest) := by
  induction hunks generalizing before with
  | nil => exact .rest before rest
  | cons hunk hunks ih =>
    have hold : oldSide (hunk :: hunks) ++ rest =
        hunk.gap ++ (hunk.old ++ (oldSide hunks ++ rest)) := by
      simp [oldSide]
    have hnew : newSide (hunk :: hunks) ++ rest =
        hunk.gap ++ (hunk.new ++ (newSide hunks ++ rest)) := by
      simp [newSide]
    rw [hold, hnew]
    exact .hunk rfl (ih _)

theorem countsMatch_parsedHunks {hunks : List DiffHunk} {before : Nat} :
    ∀ hunk ∈ parsedHunks before hunks, hunk.countsMatch = true := by
  induction hunks generalizing before with
  | nil => simp [parsedHunks]
  | cons hunk hunks ih => exact forall_mem_cons.mpr ⟨countsMatch_iff.mpr ⟨rfl, rfl⟩, ih⟩

theorem length_le_unlines (lines : List Text) : lines.length ≤ (unlines lines).length := by
  induction lines with
  | nil => exact Nat.zero_le _
  | cons line rest ih =>
    rw [unlines_cons, length_append, length_cons, length_cons]
    omega

/-! ## The round trip -/

/-- The first line that `parse` sees is a header of the old file, whatever the path is. -/
theorem splitOn_render (style : DiffStyle) (path : Text) (diff : Diff) :
    ∃ name rest, '\n' ∉ name ∧
      (stripEnd '\n' (render style path diff)).splitOn '\n' = ("--- ".toList ++ name) :: rest := by
  obtain ⟨behind, hbehind⟩ : ∃ behind, stripEnd '\n' (render style path diff) =
      "--- ".toList ++ behind := by
    refine ⟨stripEnd '\n' ("a/".toList ++ path ++ stampText style.oldStamp ++ '\n' ::
      unlines (("+++ b/".toList ++ path ++ stampText style.newStamp) ::
        renderHunks style.brief 0 0 diff.hunks)), ?_⟩
    rw [render, renderLines, unlines_cons, ← stripEnd_append_right (.inl (by simp))]
    simp
  have hsplit : ∀ text : Text, ∃ name rest, '\n' ∉ name ∧ text.splitOn '\n' = name :: rest := by
    intro text
    cases hpieces : text.splitOn '\n' with
    | nil => exact absurd hpieces (splitOnP_ne_nil _ _)
    | cons name rest =>
      exact ⟨name, rest, notMem_of_mem_splitOn (hpieces ▸ mem_cons_self), rfl⟩
  obtain ⟨name, rest, hname, hpieces⟩ := hsplit behind
  refine ⟨name, rest, hname, ?_⟩
  rw [hbehind]
  simp [splitOn_cons_eq_if_modifyHead, hpieces]

open UnifiedPatch

/-- A path is what the rendering says it is, or the rendering is not accepted. -/
theorem headerPath_of_parse {style : DiffStyle} {patch : UnifiedPatch}
    (h : parse (render style path diff) path = .ok patch) : HeaderPath path := by
  obtain ⟨name, rest, hname, hsplit⟩ := splitOn_render style path diff
  unfold parse at h
  rw [hsplit, foldlM_cons, line_fileHeader rfl (.inl rfl)] at h
  cases hverify : verifyHeaderPath (stripEnd '\r' name) path with
  | ok _ => exact verifyHeaderPath_ok hverify (notMem_stripEnd hname)
  | error error =>
    rw [hverify] at h
    split at h
    · cases h
    · split at h <;> cases h

theorem trim_ne_nil {c : Char} (h : isWhitespace c = false) (rest : Text) :
    trim (c :: rest) ≠ [] := by
  intro hnil
  have hstart : Channel.trimStart (c :: rest) = c :: rest :=
    dropWhile_cons_of_neg (Bool.eq_false_iff.mp h)
  rw [trim, hstart] at hnil
  have hspace := rdropWhile_eq_nil_iff.mp hnil c mem_cons_self
  rw [h] at hspace
  cases hspace

theorem headers_rendered (style : DiffStyle) (hpath : HeaderPath path) (diff : Diff) :
    (renderLines style path diff).foldlM (line path) .start =
      (renderHunks style.brief 0 0 diff.hunks).foldlM (line path) .start := by
  have hold : start.line path ("--- a/".toList ++ path ++ stampText style.oldStamp) =
      .ok .start := by
    refine (line_fileHeader rfl (.inl rfl) ('a' :: '/' :: path ++ stampText style.oldStamp)).trans ?_
    rw [verifyHeaderPath_rendered hpath (.inl rfl)]
    rfl
  have hnew : start.line path ("+++ b/".toList ++ path ++ stampText style.newStamp) =
      .ok .start := by
    refine (line_fileHeader rfl (.inr rfl) ('b' :: '/' :: path ++ stampText style.newStamp)).trans ?_
    rw [verifyHeaderPath_rendered hpath (.inr rfl)]
    rfl
  rw [renderLines, foldlM_cons, hold]
  show foldlM (line path) .start (_ :: _) = _
  rw [foldlM_cons, hnew]
  rfl

theorem parse_render (style : DiffStyle) (hpath : HeaderPath path)
    (hlines : ∀ line ∈ diff.oldLines ++ diff.newLines, IsLine line)
    (hold : diff.oldLines.length < usizeMax) (hnew : diff.newLines.length < usizeMax)
    (hheadings : ∀ hunk ∈ diff.hunks, IsLine hunk.heading)
    (hstamps : ∀ stamp, style.oldStamp = some stamp ∨ style.newStamp = some stamp → '\n' ∉ stamp)
    (hsize : utf8Len (render style path diff) ≤ maxPatchBytes)
    (hsome : diff.hunks ≠ []) (hcount : diff.hunks.length ≤ maxHunks) :
    ∀ patch, parse (render style path diff) path = .ok patch ↔
      (∀ hunk ∈ diff.hunks, ∀ entry ∈ hunk.body, entry.unambiguous = true) ∧
        patch = ⟨parsedHunks 0 diff.hunks⟩ := by
  intro patch
  have hentries : ∀ hunk ∈ diff.hunks, ∀ entry ∈ hunk.body, IsLine entry.text :=
    fun hunk hhunk entry hentry => hlines _ (text_mem_sides hhunk hentry)
  have hstamp : ∀ stamp, style.oldStamp = stamp ∨ style.newStamp = stamp →
      '\n' ∉ stampText stamp := by
    intro stamp hstamp
    cases stamp with
    | none => simp [stampText]
    | some text => simpa [stampText] using hstamps text hstamp
  have hfeeds : ∀ line ∈ renderLines style path diff, '\n' ∉ line := by
    intro line hmem
    rcases mem_cons.mp hmem with rfl | hmem
    · simp [hpath.noLineFeed, hstamp _ (.inl rfl)]
    rcases mem_cons.mp hmem with rfl | hmem
    · simp [hpath.noLineFeed, hstamp _ (.inr rfl)]
    · exact renderHunks_notMem (fun hunk hhunk => (hheadings hunk hhunk).1)
        (fun hunk hhunk entry hentry => (hentries hunk hhunk entry hentry).1) line hmem
  have htrim : ¬(trim (render style path diff)).isEmpty = true := by
    rw [List.isEmpty_iff]
    exact trim_ne_nil (by decide) _
  have hsides : (oldSide diff.hunks).length ≤ diff.oldLines.length ∧
      (newSide diff.hunks).length ≤ diff.newLines.length := by
    simp [oldSide, newSide, Diff.oldLines, Diff.newLines]
  have hrendered : ((stripEnd '\n' (render style path diff)).splitOn '\n').foldlM
      (line path) .start
      = (renderHunks style.brief 0 0 diff.hunks).foldlM (line path) .start := by
    have hnil : renderLines style path diff ≠ [] := cons_ne_nil _ _
    rw [render, unlines_eq_intercalate hnil, stripEnd_append, splitOn_intercalate '\n' hfeeds hnil]
    exact headers_rendered style hpath diff
  have hempty : ¬(parsedHunks 0 diff.hunks).isEmpty = true := by
    cases hhunks : diff.hunks with
    | nil => exact absurd hhunks hsome
    | cons hunk hunks => simp [parsedHunks]
  have hfound := hunks_rendered path style.brief diff.hunks .start 0 0 (by omega) (by omega)
    (by simpa [all, start] using hcount) (fun hunk hhunk => (hheadings hunk hhunk).2) hentries
  rw [parse, if_neg htrim, if_neg (by omega), hrendered]
  constructor
  · intro h
    split at h
    · cases h
    rename_i s hfold
    obtain ⟨hplain, hall⟩ := (hfound _).mp ⟨s, hfold, rfl⟩
    have hall : s.all = parsedHunks 0 diff.hunks := hall
    rw [hall, if_neg hempty] at h
    split at h <;> cases h
    exact ⟨hplain, rfl⟩
  · rintro ⟨hplain, rfl⟩
    obtain ⟨s, hfold, hall⟩ := (hfound _).mpr ⟨hplain, rfl⟩
    have hall : s.all = parsedHunks 0 diff.hunks := hall
    rw [hfold]
    simp only [hall]
    rw [if_neg hempty, if_pos (all_eq_true.mpr countsMatch_parsedHunks)]

theorem apply_parsedHunks (hlines : ∀ line ∈ diff.oldLines, IsLine line)
    (hne : diff.oldLines ≠ []) (result : Text) :
    apply ⟨parsedHunks 0 diff.hunks⟩ (unlines diff.oldLines) = .ok result ↔
      result = joinLines .lf true diff.newLines := by
  have hcut : Cut 0 (parsedHunks 0 diff.hunks) diff.oldLines diff.newLines :=
    cut_parsedHunks diff.hunks diff.rest 0
  have happly : apply ⟨parsedHunks 0 diff.hunks⟩ (unlines diff.oldLines) =
      .ok (joinLines .lf true diff.newLines) := by
    rw [apply_iff, fileLines_unlines hlines, lineEnding_unlines hlines, trailingNewline_unlines hne]
    exact ⟨_, hcut, rfl⟩
  rw [happly, Except.ok.injEq, eq_comm]

/-- A rendered diff is accepted and makes the new text of the old one exactly if no line of it
reads like a header of a file, the new text is more than an empty line, and the path is one that
a header can carry. -/
theorem render_applies_iff (style : DiffStyle) (path : Text) (diff : Diff) {old new : Text}
    (hold : old = unlines diff.oldLines) (hnew : new = unlines diff.newLines)
    (hlines : ∀ line ∈ diff.oldLines ++ diff.newLines, IsLine line)
    (hsome : old ≠ []) (hsome' : new ≠ []) (hdiffer : old ≠ new)
    (hmemory : utf8Len old < usizeMax) (hmemory' : utf8Len new < usizeMax)
    (hheadings : ∀ hunk ∈ diff.hunks, IsLine hunk.heading)
    (hstamps : ∀ stamp, style.oldStamp = some stamp ∨ style.newStamp = some stamp → '\n' ∉ stamp)
    (hsize : utf8Len (render style path diff) ≤ maxPatchBytes)
    (hcount : diff.hunks.length ≤ maxHunks) :
    (∃ patch, UnifiedPatch.parse (render style path diff) path = .ok patch ∧
      patch.apply old = .ok new) ↔
    (∀ hunk ∈ diff.hunks, ∀ entry ∈ hunk.body, entry.unambiguous = true) ∧
      new ≠ ['\n'] ∧ HeaderPath path := by
  subst hold hnew
  have hne : diff.oldLines ≠ [] := fun heq => hsome (by rw [heq]; rfl)
  have hne' : diff.newLines ≠ [] := fun heq => hsome' (by rw [heq]; rfl)
  have hhunks : diff.hunks ≠ [] := by
    intro hnone
    refine hdiffer ?_
    rw [Diff.oldLines, Diff.newLines, hnone]
    rfl
  have hbound : diff.oldLines.length < usizeMax :=
    Nat.lt_of_le_of_lt ((length_le_unlines _).trans
      (Channel.LengthUnit.chars.measure_le_utf8Len _)) hmemory
  have hbound' : diff.newLines.length < usizeMax :=
    Nat.lt_of_le_of_lt ((length_le_unlines _).trans
      (Channel.LengthUnit.chars.measure_le_utf8Len _)) hmemory'
  have hparse := fun hpath : HeaderPath path =>
    parse_render style hpath hlines hbound hbound' hheadings hstamps hsize hhunks hcount
  have happly := apply_parsedHunks (fun line hmem => hlines line (mem_append_left _ hmem)) hne
    (unlines diff.newLines)
  constructor
  · intro h
    obtain ⟨patch, haccepted, happlied⟩ := h
    have hpath := headerPath_of_parse haccepted
    obtain ⟨hplain, rfl⟩ := (hparse hpath _).mp haccepted
    refine ⟨hplain, fun hnewline => ?_, hpath⟩
    exact joinLines_ne_newline diff.newLines ((happly.mp happlied).symm.trans hnewline)
  · intro h
    obtain ⟨hplain, hnewline, hpath⟩ := h
    refine ⟨_, (hparse hpath _).mpr ⟨hplain, rfl⟩,
      happly.mpr (joinLines_eq_unlines hne' (fun heq => hnewline ?_)).symm⟩
    rw [heq]
    rfl

/-- `c` becomes `C`, with a line of context. -/
def plainDiff : Diff :=
  ⟨[⟨["a".toList], [.context "b".toList, .removed "c".toList, .added "C".toList], []⟩], []⟩

theorem render_applies_plain :
    ∃ patch, UnifiedPatch.parse (render ⟨true, none, none⟩ "n".toList plainDiff) "n".toList = .ok patch ∧
      patch.apply "a\nb\nc\n".toList = .ok "a\nb\nC\n".toList := by
  refine (render_applies_iff ⟨true, none, none⟩ "n".toList plainDiff rfl rfl ?_ (by decide)
    (by decide) (by decide) (by decide) (by decide) ?_ (by simp) (by decide +kernel)
    (by decide)).mpr ⟨by decide, by decide, by decide, by decide, by decide, ?_⟩
  · unfold IsLine
    decide
  · unfold IsLine
    decide
  · intro c hc
    cases hc
    rfl

/-- A comment is taken out: the rendered line is `--- x`, a header of a second file. -/
def commentDiff : Diff := ⟨[⟨[], [.removed "-- x".toList, .context "y".toList], []⟩], []⟩

theorem render_comment_refused :
    unlines commentDiff.oldLines = "-- x\ny\n".toList ∧
    unlines commentDiff.newLines = "y\n".toList ∧
    render ⟨true, none, none⟩ "n".toList commentDiff =
      "--- a/n\n+++ b/n\n@@ -1,2 +1 @@\n--- x\n y\n".toList ∧
    utf8Len (render ⟨true, none, none⟩ "n".toList commentDiff) ≤ maxPatchBytes ∧
    commentDiff.hunks.length ≤ maxHunks ∧
    UnifiedPatch.parse (render ⟨true, none, none⟩ "n".toList commentDiff) "n".toList =
      .error .multipleFiles := by
  decide +kernel

end GtaClaw.Tools
