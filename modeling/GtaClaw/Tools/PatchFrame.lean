import GtaClaw.Tools.PatchApply

/-!
# What a patch leaves alone

A line of a file is its text together with the terminator it has. `apply` takes the
terminators off and writes one and the same terminator behind every line of the result, so
a line that no hunk names comes back as it was only if that is the one it had.

`Framed` says that the untouched lines are all there, each at its place and byte for byte.
`framed_iff` says for which files and patches that is so.
-/

namespace GtaClaw.Tools

open Channel (Text)
open Lib
open List hiding all

/-! ## Lines and their terminators -/

/-- The lines of a text, with their terminators. -/
def rawLines (text : Text) : List Text := splitInclusive '\n' text

/-- A line without its terminator, as `apply` sees it. -/
def content (raw : Text) : Text := stripEnd '\r' (stripEnd '\n' raw)

theorem stripEnd_append (c : Char) (text : Text) : stripEnd c (text ++ [c]) = text := by
  rw [stripEnd, if_pos (by simp), dropLast_concat]

variable {text : Text}

theorem stripEnd_of_ne {c : Char} (h : text.getLast? ≠ some c) : stripEnd c text = text := by
  rw [stripEnd, if_neg h]

theorem stripEnd_of_notMem {c : Char} (h : c ∉ text) : stripEnd c text = text :=
  stripEnd_of_ne (fun hlast => h (mem_of_getLast? hlast))

theorem notMem_stripEnd {c d : Char} (h : d ∉ text) : d ∉ stripEnd c text := by
  unfold stripEnd
  split
  · exact fun hmem => h (mem_of_mem_dropLast hmem)
  · exact h

theorem fileLines_eq (text : Text) : fileLines text = (rawLines text).map content := by
  have hcomplete : ∀ lines : List Text, (lines.map (· ++ ['\n'])).map content =
      lines.map (stripEnd '\r') := by
    intro lines
    rw [map_map]
    refine map_congr_left (fun line _ => ?_)
    rw [Function.comp_apply, content, stripEnd_append]
  rcases eq_or_ne text [] with rfl | hne
  · rfl
  have hresidue : content (residue '\n' text) = stripEnd '\r' (residue '\n' text) := by
    rw [content, stripEnd_of_notMem (residue_notMem text)]
  have hempty : ¬text.isEmpty = true := by simpa using hne
  rw [fileLines, rawLines, splitInclusive, if_neg hempty, splitOn_eq, map_append,
    map_append, hcomplete]
  by_cases hlast : text.getLast? = some '\n'
  · have htrailing : trailingNewline text = true := by simp [trailingNewline, hlast]
    rw [if_pos htrailing, if_pos ((getLast?_eq_sep_iff hne).mp hlast)]
    simp
  have htrailing : ¬trailingNewline text = true := by simp [trailingNewline, hlast]
  rw [if_neg htrailing, if_neg (fun h => hlast ((getLast?_eq_sep_iff hne).mpr h))]
  simp [hresidue]

theorem rawLine_cases {raw : Text} (h : raw ∈ rawLines text) :
    (∃ line, '\n' ∉ line ∧ raw = line ++ ['\n']) ∨
      ('\n' ∉ raw ∧ raw ≠ [] ∧ trailingNewline text = false) := by
  rcases eq_or_ne text [] with rfl | hne
  · cases h
  rw [rawLines, splitInclusive, mem_append] at h
  rcases h with hmem | hmem
  · obtain ⟨line, hline, rfl⟩ := mem_map.mp hmem
    exact .inl ⟨line, completeLines_notMem hline, rfl⟩
  split_ifs at hmem with hresidue
  · cases hmem
  cases mem_singleton.mp hmem
  refine .inr ⟨residue_notMem text, hresidue, ?_⟩
  have hlast : text.getLast? ≠ some '\n' := fun h => hresidue ((getLast?_eq_sep_iff hne).mp h)
  simpa [trailingNewline] using hlast

/-! ## The lines of the result -/

variable (ending : LineEnding)

theorem LineEnding.asStr_eq : ∃ before, '\n' ∉ before ∧ ending.asStr = before ++ ['\n'] := by
  cases ending with
  | lf => exact ⟨[], by simp, rfl⟩
  | crlf => exact ⟨['\r'], by simp, rfl⟩

/-- The lines of the result, each with the ending of the file. -/
def endLines (ending : LineEnding) (trailing : Bool) : List Text → List Text
  | [] => []
  | [line] => if trailing then [line ++ ending.asStr] else if line = [] then [] else [line]
  | line :: next :: rest => (line ++ ending.asStr) :: endLines ending trailing (next :: rest)

variable {line : Text} {lines : List Text}

theorem rawLines_endLine (hline : '\n' ∉ line) (ending : LineEnding) (rest : Text) :
    rawLines (line ++ (ending.asStr ++ rest)) = (line ++ ending.asStr) :: rawLines rest := by
  obtain ⟨before, hbefore, hending⟩ := ending.asStr_eq
  have hclear : '\n' ∉ line ++ before := not_mem_append hline hbefore
  rw [hending, append_assoc, ← append_assoc line, singleton_append, rawLines,
    splitInclusive_line hclear, append_assoc]
  rfl

theorem rawLines_intercalate (trailing : Bool)
    (hlines : ∀ line ∈ lines, '\n' ∉ line) (hne : lines ≠ []) :
    rawLines (ending.asStr.intercalate lines ++ if trailing then ending.asStr else []) =
      endLines ending trailing lines := by
  induction lines with
  | nil => exact absurd rfl hne
  | cons line rest ih =>
    have hline := hlines line mem_cons_self
    cases rest with
    | nil =>
      rw [intercalate_singleton, endLines]
      cases trailing with
      | true =>
        have hone := rawLines_endLine hline ending []
        rw [append_nil] at hone
        exact hone
      | false =>
        simp only [Bool.false_eq_true, if_false, append_nil]
        split_ifs with hempty
        · rw [hempty]
          rfl
        · exact splitInclusive_of_notMem hline hempty
    | cons next rest =>
      have hrest := ih (forall_mem_cons.mp hlines).2 (by simp)
      rw [intercalate_cons_cons, append_assoc, append_assoc,
        rawLines_endLine hline, hrest]
      rfl

/-- A result of one empty line comes out empty, whatever ended that line. -/
theorem rawLines_joinLines (trailing : Bool) (hlines : ∀ line ∈ lines, '\n' ∉ line) :
    rawLines (joinLines ending trailing lines) =
      if lines = [[]] then [] else endLines ending trailing lines := by
  rcases lines with _ | ⟨line, rest⟩
  · cases trailing <;> rfl
  have hraw := fun trailing => rawLines_intercalate ending trailing hlines (by simp)
  have hempty : (ending.asStr.intercalate (line :: rest)).isEmpty = true ↔ line :: rest = [[]] := by
    cases rest with
    | nil => simp
    | cons next rest => cases ending <;> simp [LineEnding.asStr]
  unfold joinLines
  by_cases hone : line :: rest = [[]]
  · rw [if_neg (fun h => h.2 (hempty.mpr hone)), hone]
    rfl
  rw [if_neg hone]
  cases trailing with
  | true =>
    rw [if_pos ⟨rfl, fun h => hone (hempty.mp h)⟩]
    exact hraw true
  | false =>
    have hfalse := hraw false
    simp only [Bool.false_eq_true, if_false, append_nil] at hfalse
    exact hfalse

theorem getElem?_endLines (trailing : Bool) (lines : List Text) (i : Nat) :
    (endLines ending trailing lines)[i]? =
      if i + 1 < lines.length ∨ trailing then lines[i]?.map (· ++ ending.asStr)
      else lines[i]?.filter (· ≠ []) := by
  induction lines generalizing i with
  | nil => simp [endLines]
  | cons line rest ih =>
    cases rest with
    | nil =>
      cases trailing with
      | true => cases i <;> simp [endLines]
      | false =>
        by_cases hempty : line = []
        · cases i <;> simp [endLines, hempty, Option.filter]
        · cases i <;> simp [endLines, hempty, Option.filter]
    | cons next rest =>
      cases i with
      | zero => simp [endLines]
      | succ i =>
        rw [endLines, getElem?_cons_succ, ih]
        simp

/-- The terminator that `apply` writes behind a line is the one the line has. The line is
`raw`, and it becomes number `place` of the `count` lines of the result. -/
def KeepsEnd (original : Text) (count place : Nat) (raw : Text) : Prop :=
  if raw.getLast? = some '\n' then
    raw = content raw ++ (lineEnding original).asStr ∧
      (place + 1 < count ∨ trailingNewline original) ∧ ¬(count = 1 ∧ content raw = [])
  else raw.getLast? ≠ some '\r' ∧ place + 1 = count

instance (original : Text) (count place : Nat) (raw : Text) :
    Decidable (KeepsEnd original count place raw) :=
  inferInstanceAs (Decidable (ite _ _ _))

/-- A line of the file that is also a line of the result comes back as it was exactly if it
keeps its end. -/
theorem getElem?_joinLines_iff {original raw : Text} (hraw : raw ∈ rawLines original)
    (hlines : ∀ line ∈ lines, '\n' ∉ line) {place : Nat}
    (hplace : lines[place]? = some (content raw)) :
    (rawLines (joinLines (lineEnding original) (trailingNewline original) lines))[place]? =
        some raw ↔
      KeepsEnd original lines.length place raw := by
  have hlt : place < lines.length := (List.getElem?_eq_some_iff.mp hplace).1
  have hsole : lines = [[]] → content raw = [] := by
    rintro rfl
    have hzero : place = 0 := by simpa using hlt
    rw [hzero] at hplace
    exact (Option.some.inj hplace).symm
  rw [rawLines_joinLines _ _ hlines]
  rcases rawLine_cases hraw with ⟨line, hline, rfl⟩ | ⟨hclear, hne, htrailing⟩
  · have hlast : (line ++ ['\n']).getLast? = some '\n' := by simp
    have hcontent : content (line ++ ['\n']) = stripEnd '\r' line := by
      rw [content, stripEnd_append]
    rw [KeepsEnd]
    by_cases hone : lines = [[]]
    · simp [hone, hsole hone]
    · rw [if_neg hone, getElem?_endLines, hplace]
      have hsingle : ¬(lines.length = 1 ∧ content (line ++ ['\n']) = []) := by
        rintro ⟨hlength, hnil⟩
        obtain ⟨only, rfl⟩ := length_eq_one_iff.mp hlength
        have hzero : place = 0 := by simpa using hlt
        rw [hzero, hnil] at hplace
        exact hone (congrArg (fun line => [line]) (Option.some.inj hplace))
      split_ifs with hmore
      · constructor
        · intro h
          exact ⟨(Option.some.inj h).symm, hmore, hsingle⟩
        · intro h
          exact congrArg some h.1.symm
      · refine iff_of_false ?_ (fun h => hmore h.2.1)
        -- The result ends with the text of the line, and without any terminator.
        intro h
        obtain ⟨hsome, -⟩ := Option.filter_eq_some_iff.mp h
        have hmem : '\n' ∈ content (line ++ ['\n']) := by
          rw [Option.some.inj hsome]
          simp
        rw [hcontent] at hmem
        exact notMem_stripEnd hline hmem
  · have hlast : raw.getLast? ≠ some '\n' := fun h => hclear (mem_of_getLast? h)
    have hcontent : content raw = stripEnd '\r' raw := by rw [content, stripEnd_of_notMem hclear]
    have hkept : content raw = raw ↔ raw.getLast? ≠ some '\r' := by
      rw [hcontent]
      constructor
      · intro h hreturn
        rw [stripEnd, if_pos hreturn] at h
        have hlength := congrArg length h
        rw [length_dropLast] at hlength
        have hpos := length_pos_of_ne_nil hne
        omega
      · exact stripEnd_of_ne
    rw [KeepsEnd, if_neg hlast, ← hkept]
    by_cases hone : lines = [[]]
    · rw [if_pos hone, hsole hone]
      exact iff_of_false (by simp) (fun h => hne h.1.symm)
    · rw [if_neg hone, getElem?_endLines, hplace, htrailing]
      by_cases hmore : place + 1 < lines.length
      · rw [if_pos (.inl hmore)]
        refine iff_of_false ?_ (by omega)
        intro h
        obtain ⟨before, -, hending⟩ := (lineEnding original).asStr_eq
        refine hclear ?_
        rw [← Option.some.inj h, hending]
        simp
      · rw [if_neg (by simp [hmore])]
        have hend : place + 1 = lines.length := by omega
        rw [Option.filter_eq_some_iff]
        constructor
        · intro h
          exact ⟨Option.some.inj h.1, hend⟩
        · intro h
          exact ⟨congrArg some h.1, by simpa using hne⟩

/-! ## Where the untouched lines go -/

/-- Line `i` of the file is a context or removed line of a hunk. -/
def named (hunks : List Hunk) (i : Nat) : Bool :=
  hunks.any fun hunk => hunk.start ≤ i && i < hunk.start + hunk.oldCount

/-- How many lines the hunks up to line `i` take away. -/
def takenBefore (hunks : List Hunk) (i : Nat) : Nat :=
  ((hunks.filter (·.start ≤ i)).map (·.oldCount)).sum

/-- How many lines the hunks up to line `i` put in. -/
def putBefore (hunks : List Hunk) (i : Nat) : Nat :=
  ((hunks.filter (·.start ≤ i)).map (·.newCount)).sum

variable {hunk : Hunk} {i : Nat}

variable {hunks : List Hunk}

variable {n : Nat} {old new : List Text}

theorem Cut.le_start (h : Cut n hunks old new) : ∀ hunk ∈ hunks, n ≤ hunk.start := by
  induction h with
  | rest n lines => simp
  | @hunk n gap old new hunk hunks hstart behind ih =>
    intro other hmem
    rcases mem_cons.mp hmem with rfl | hmem
    · rw [Hunk.start]
      omega
    · have := ih other hmem
      omega

theorem countsMatch_iff : hunk.countsMatch = true ↔
    hunk.oldLines.length = hunk.oldCount ∧ hunk.newLines.length = hunk.newCount := by
  simp [Hunk.countsMatch]

/-- An untouched line stands in front of the first hunk, or behind it. -/
theorem untouched_cases {gap : List Text} (hstart : hunk.oldStart = n + gap.length + 1)
    (behind : Cut (n + gap.length + hunk.oldLines.length) hunks old new)
    (hcounts : hunk.countsMatch = true) (hfree : named (hunk :: hunks) i = false) :
    (i < n + gap.length ∧
      takenBefore (hunk :: hunks) i = 0 ∧ putBefore (hunk :: hunks) i = 0) ∨
    (n + gap.length + hunk.oldLines.length ≤ i ∧ named hunks i = false ∧
      takenBefore (hunk :: hunks) i = hunk.oldLines.length + takenBefore hunks i ∧
      putBefore (hunk :: hunks) i = hunk.newLines.length + putBefore hunks i) := by
  have hfirst : hunk.start = n + gap.length := by
    rw [Hunk.start]
    omega
  obtain ⟨hold, hnew⟩ := countsMatch_iff.mp hcounts
  rw [named, any_cons, Bool.or_eq_false_iff] at hfree
  obtain ⟨hout, hfree⟩ := hfree
  have hout : hunk.start ≤ i → hunk.start + hunk.oldCount ≤ i := by
    intro hle
    simpa [hle] using hout
  by_cases hle : hunk.start ≤ i
  · exact .inr ⟨by omega, hfree, by simp [takenBefore, hle, hold], by simp [putBefore, hle, hnew]⟩
  have hnone : (hunk :: hunks).filter (·.start ≤ i) = [] := by
    refine filter_eq_nil_iff.mpr fun other hmem => ?_
    rcases mem_cons.mp hmem with rfl | hmem
    · simpa using hle
    · have := behind.le_start other hmem
      simp
      omega
  exact .inl ⟨by omega, by simp [takenBefore, putBefore, hnone]⟩

section

variable (h : Cut n hunks old new) (hcounts : ∀ hunk ∈ hunks, hunk.countsMatch = true)
include h hcounts

theorem Cut.takenBefore_le
    (hi : n ≤ i) (hfree : named hunks i = false) : n + takenBefore hunks i ≤ i := by
  induction h with
  | rest n lines => exact hi
  | @hunk n gap old new hunk hunks hstart behind ih =>
    rcases untouched_cases hstart behind (hcounts hunk mem_cons_self) hfree with
      ⟨-, htaken, -⟩ | ⟨hpast, hrest, htaken, -⟩
    · rw [htaken]
      exact hi
    · have hle := ih (forall_mem_cons.mp hcounts).2 hpast hrest
      omega

/-- An untouched line is in the result, moved by what the hunks in front of it do. -/
theorem Cut.getElem?_new {i place : Nat}
    (hi : n ≤ i) (hlt : i < n + old.length) (hfree : named hunks i = false)
    (hplace : place + n + takenBefore hunks i = i + putBefore hunks i) :
    new[place]? = old[i - n]? := by
  induction h generalizing place with
  | rest n lines =>
    have hplace : place + n + 0 = i + 0 := hplace
    congr 1
    omega
  | @hunk n gap old new hunk hunks hstart behind ih =>
    simp only [length_append] at hlt
    rcases untouched_cases hstart behind (hcounts hunk mem_cons_self) hfree with
      ⟨hbefore, htaken, hput⟩ | ⟨hpast, hrest, htaken, hput⟩
    · have heq : place = i - n := by omega
      rw [heq, getElem?_append_left (by omega), getElem?_append_left (by omega)]
    · have hle := behind.takenBefore_le
        (forall_mem_cons.mp hcounts).2 hpast hrest
      -- The same line, counted from behind the hunk.
      have hmoved : new[place - gap.length - hunk.newLines.length]? =
          old[i - (n + gap.length + hunk.oldLines.length)]? :=
        ih (forall_mem_cons.mp hcounts).2 hpast (by omega)
          hrest (by omega)
      rw [getElem?_append_right (by omega), getElem?_append_right (by omega), hmoved,
        getElem?_append_right (by omega), getElem?_append_right (by omega)]
      congr 1
      omega

theorem Cut.length_new :
    new.length + (hunks.map (·.oldCount)).sum = old.length + (hunks.map (·.newCount)).sum := by
  induction h with
  | rest n lines => rfl
  | @hunk n gap old new hunk hunks hstart behind ih =>
    obtain ⟨hold, hnew⟩ := countsMatch_iff.mp (hcounts hunk mem_cons_self)
    have hrest := ih (forall_mem_cons.mp hcounts).2
    simp only [length_append, map_cons, sum_cons]
    omega

end

theorem Cut.new_eq_old
    (h : Cut n hunks old new) (hcontext : ∀ hunk ∈ hunks, hunk.newLines = hunk.oldLines) :
    new = old := by
  induction h with
  | rest n lines => rfl
  | @hunk n gap old new hunk hunks hstart behind ih =>
    rw [hcontext hunk mem_cons_self,
      ih (forall_mem_cons.mp hcontext).2]

theorem Cut.place_lt (h : Cut n hunks old new) (hcounts : ∀ hunk ∈ hunks, hunk.countsMatch = true)
    {i j place other : Nat} (hi : n ≤ i) (hlt : i < j) (hfree : named hunks i = false)
    (hfree' : named hunks j = false) (hplace : place + n + takenBefore hunks i = i + putBefore hunks i)
    (hother : other + n + takenBefore hunks j = j + putBefore hunks j) : place < other := by
  induction h generalizing place other with
  | rest n lines =>
    have hplace : place + n + 0 = i + 0 := hplace
    have hother : other + n + 0 = j + 0 := hother
    omega
  | @hunk n gap old new hunk hunks hstart behind ih =>
    have hmatch := hcounts hunk mem_cons_self
    have hrest := (forall_mem_cons.mp hcounts).2
    rcases untouched_cases hstart behind hmatch hfree' with
      ⟨hbefore, htaken, hput⟩ | ⟨hpast, hfree', htaken, hput⟩
    · rcases untouched_cases hstart behind hmatch hfree with
        ⟨-, htaken', hput'⟩ | ⟨hpast, -⟩
      · omega
      · omega
    · have hle := behind.takenBefore_le hrest hpast hfree'
      rcases untouched_cases hstart behind hmatch hfree with
        ⟨hbefore, htaken', hput'⟩ | ⟨hpast', hfree, htaken', hput'⟩
      · omega
      · have hle' := behind.takenBefore_le hrest hpast' hfree
        have hbehind : place - gap.length - hunk.newLines.length <
            other - gap.length - hunk.newLines.length :=
          ih hrest hpast' hfree hfree' (by omega) (by omega)
        omega

theorem Cut.mem_new (h : Cut n hunks old new)
    (hmem : line ∈ new) : line ∈ old ∨ ∃ hunk ∈ hunks, line ∈ hunk.newLines := by
  induction h with
  | rest n lines => exact .inl hmem
  | @hunk n gap old new hunk hunks hstart behind ih =>
    simp only [mem_append] at hmem ⊢
    rcases hmem with hgap | hnew | hrest
    · exact .inl (.inl hgap)
    · exact .inr ⟨hunk, mem_cons_self, hnew⟩
    · rcases ih hrest with hold | ⟨other, hother, hline⟩
      · exact .inl (.inr (.inr hold))
      · exact .inr ⟨other, mem_cons_of_mem _ hother, hline⟩

/-! ## What `parse` makes sure of -/

/-- No line of the hunk holds a line feed. -/
def Hunk.Lined (hunk : Hunk) : Prop := ∀ line ∈ hunk.newLines, '\n' ∉ line

theorem Hunk.push_lined {next : Hunk} (h : hunk.push line = .ok next)
    (hline : '\n' ∉ line) (hlined : hunk.Lined) : next.Lined := by
  have hpush : ∀ entry : HunkLine, (∀ text ∈ entry.new?, '\n' ∉ text) →
      Hunk.Lined { hunk with body := hunk.body ++ [entry] } := by
    intro entry hentry text hmem
    rw [Hunk.newLines, filterMap_append, mem_append] at hmem
    rcases hmem with hmem | hmem
    · exact hlined text hmem
    simp only [filterMap_cons] at hmem
    cases hnew : entry.new? with rw [hnew] at hmem
    | none => cases hmem
    | some added =>
      cases mem_singleton.mp hmem
      exact hentry text hnew
  have htail : ∀ {c : Char} {text : Text}, line = c :: text → '\n' ∉ text := by
    intro c text heq hmem
    exact hline (heq ▸ mem_cons_of_mem _ hmem)
  revert h
  fun_cases Hunk.push hunk line with (intro h; cases h)
  | case1 => exact hlined
  | case2 | case4 => exact hpush _ (by rintro text ⟨⟩; exact htail rfl)
  | case3 => exact hpush _ (by rintro text ⟨⟩)
  | case5 => exact hpush _ (by rintro text ⟨⟩; simp)

theorem parseHunkHeader_body (h : parseHunkHeader line = .ok hunk) : hunk.body = [] := by
  unfold parseHunkHeader at h
  repeat' split at h
  all_goals try cases h
  obtain ⟨old, -, h⟩ := bind_ok h
  obtain ⟨new, -, h⟩ := bind_ok h
  dsimp only at h
  split at h
  · cases h
  · cases h
    rfl

open Parsing

/-- What a line does, if it is accepted: nothing, or it begins a hunk, or it goes into the hunk
that is being read. -/
theorem Parsing.line_cases {path raw : Text} {s s' : Parsing} (h : s.line path raw = .ok s') :
    s' = s ∨
    (∃ hunk, parseHunkHeader (stripEnd '\r' raw) = .ok hunk ∧ s' = ⟨s.all, some hunk, true⟩) ∨
    ∃ hunk next, s.current = some hunk ∧ hunk.push (stripEnd '\r' raw) = .ok next ∧
      s' = { s with current := some next } := by
  have hheader : ∀ header, s.fileHeader path header = .ok s' → s' = s := by
    intro header h
    unfold fileHeader at h
    split at h
    · cases h
    · obtain ⟨-, -, rfl⟩ := map_ok h
      rfl
  revert h
  fun_cases Parsing.line path s raw with intro h
  | case1 _ header | case2 _ _ header => exact .inl (hheader _ h)
  | case4 | case6 => exact .inl (Except.ok.inj h).symm
  | case5 line =>
    unfold hunkHeader at h
    split at h
    · cases h
    obtain ⟨hunk, hhunk, rfl⟩ := map_ok h
    exact .inr (.inl ⟨hunk, hhunk, rfl⟩)
  | case8 _ _ _ _ _ hunk hcurrent =>
    obtain ⟨next, hnext, rfl⟩ := map_ok h
    exact .inr (.inr ⟨hunk, next, hcurrent, hnext, rfl⟩)
  | case3 | case7 => cases h

theorem Parsing.line_lined {path raw : Text} {s s' : Parsing} (h : s.line path raw = .ok s')
    (hraw : '\n' ∉ raw) (hlined : ∀ hunk ∈ s.all, hunk.Lined) : ∀ hunk ∈ s'.all, hunk.Lined := by
  rcases line_cases h with rfl | ⟨hunk, hhunk, rfl⟩ | ⟨hunk, next, hcurrent, hnext, rfl⟩
  · exact hlined
  · -- A new hunk: the one before it joins the others, and its own body is empty.
    intro other hmem
    simp only [all, Option.toList_some, mem_append, mem_singleton] at hmem
    rcases hmem with hmem | rfl
    · exact hlined other (by simpa [all] using hmem)
    intro text htext
    rw [Hunk.newLines, parseHunkHeader_body hhunk] at htext
    cases htext
  · have hhunk : hunk.Lined := hlined hunk (by simp [all, hcurrent])
    intro other hmem
    simp only [all, Option.toList_some, mem_append, mem_singleton] at hmem
    rcases hmem with hmem | rfl
    · exact hlined other (by simp [all, hmem])
    · exact Hunk.push_lined hnext (notMem_stripEnd hraw) hhunk

theorem parse_ok {path : Text} {patch : UnifiedPatch}
    (h : UnifiedPatch.parse text path = .ok patch) :
    ∀ hunk ∈ patch.hunks, hunk.countsMatch = true ∧ hunk.Lined := by
  revert h
  fun_cases UnifiedPatch.parse text path with (intro h; cases h)
  | case5 _ _ s hs _ hcounts =>
    intro hunk hmem
    refine ⟨all_eq_true.mp hcounts hunk hmem, ?_⟩
    have hlined : ∀ hunk ∈ s.all, hunk.Lined := by
      refine foldlM_inv (I := fun s => ∀ hunk ∈ s.all, hunk.Lined) ?_ (by simp [start, all]) hs
      intro s raw s' hraw hlined hline
      exact line_lined hline (notMem_of_mem_splitOn hraw) hlined
    exact hlined hunk hmem

/-! ## The frame -/

def HunkLine.isContext : HunkLine → Bool
  | .context _ => true
  | _ => false

namespace UnifiedPatch

/-- Where line `i` of the file goes, if no hunk names it. -/
def place (patch : UnifiedPatch) (i : Nat) : Nat :=
  i + putBefore patch.hunks i - takenBefore patch.hunks i

/-- How many lines the result has. -/
def count (patch : UnifiedPatch) (original : Text) : Nat :=
  (rawLines original).length + (patch.hunks.map (·.newCount)).sum -
    (patch.hunks.map (·.oldCount)).sum

/-- The hunks hold nothing but context lines. -/
def contextOnly (patch : UnifiedPatch) : Bool :=
  patch.hunks.all fun hunk => hunk.body.all HunkLine.isContext

/-- The patch leaves the lines alone that its hunks do not name: each of them is in the
result, at its place and byte for byte, and they are in the same order. A patch without a
change gives the text back. -/
structure Framed (patch : UnifiedPatch) (original result : Text) : Prop where
  kept : ∀ i raw, (rawLines original)[i]? = some raw → named patch.hunks i = false →
    (rawLines result)[patch.place i]? = some raw
  ordered : ∀ i j, i < j → j < (rawLines original).length → named patch.hunks i = false →
    named patch.hunks j = false → patch.place i < patch.place j
  context : patch.contextOnly → result = original

/-- The untouched lines have the terminator that `apply` writes, and so have all lines if the
patch changes nothing. -/
structure EndsKept (patch : UnifiedPatch) (original : Text) : Prop where
  untouched : ∀ i raw, (rawLines original)[i]? = some raw → named patch.hunks i = false →
    KeepsEnd original (patch.count original) (patch.place i) raw
  context : patch.contextOnly → ∀ i raw, (rawLines original)[i]? = some raw →
    KeepsEnd original (rawLines original).length i raw

theorem newLines_eq_oldLines {patch : UnifiedPatch} (h : patch.contextOnly = true) :
    ∀ hunk ∈ patch.hunks, hunk.newLines = hunk.oldLines := by
  intro hunk hmem
  refine filterMap_congr (fun line hline => ?_)
  have hcontext := all_eq_true.mp (all_eq_true.mp h hunk hmem) line hline
  cases line with
  | context text => rfl
  | removed text | added text => cases hcontext

theorem fileLines_notMem {original : Text} (h : line ∈ fileLines original) : '\n' ∉ line := by
  rw [fileLines_eq] at h
  obtain ⟨raw, hraw, rfl⟩ := mem_map.mp h
  refine notMem_stripEnd ?_
  rcases rawLine_cases hraw with ⟨line, hline, rfl⟩ | ⟨hclear, -, -⟩
  · rw [stripEnd_append]
    exact hline
  · exact notMem_stripEnd hclear

theorem eq_of_rawLines {a b : Text} (h : rawLines a = rawLines b) : a = b := by
  have hflat := congrArg flatten h
  rwa [rawLines, rawLines, flatten_splitInclusive, flatten_splitInclusive] at hflat

/-- Putting the lines of a file together again gives the file exactly if each keeps its end. -/
theorem joinLines_fileLines_iff (original : Text) :
    joinLines (lineEnding original) (trailingNewline original) (fileLines original) = original ↔
      ∀ i raw, (rawLines original)[i]? = some raw →
        KeepsEnd original (rawLines original).length i raw := by
  have hclear : ∀ line ∈ fileLines original, '\n' ∉ line := fun line => fileLines_notMem
  have hlength : (fileLines original).length = (rawLines original).length := by
    rw [fileLines_eq, length_map]
  have hline : ∀ i raw, (rawLines original)[i]? = some raw →
      ((rawLines (joinLines (lineEnding original) (trailingNewline original)
        (fileLines original)))[i]? = some raw ↔
        KeepsEnd original (rawLines original).length i raw) := by
    intro i raw hraw
    rw [← hlength]
    refine getElem?_joinLines_iff (mem_of_getElem? hraw) hclear ?_
    rw [fileLines_eq, getElem?_map, hraw]
    rfl
  constructor
  · intro h i raw hraw
    refine (hline i raw hraw).mp ?_
    rw [h]
    exact hraw
  · intro h
    refine eq_of_rawLines (ext_getElem? (fun i => ?_))
    cases hraw : (rawLines original)[i]? with
    | some raw => exact (hline i raw hraw).mpr (h i raw hraw)
    | none =>
      -- The result has no more lines than the file.
      have hout : (fileLines original)[i]? = none := by
        rw [fileLines_eq, getElem?_map, hraw]
        rfl
      rw [rawLines_joinLines _ _ hclear]
      split
      · rfl
      · rw [getElem?_endLines, hout]
        simp

/-- An accepted patch that applies leaves the other lines alone exactly if `apply` writes the
terminators they have. -/
theorem framed_iff {text path original result : Text} {patch : UnifiedPatch}
    (hparse : parse text path = .ok patch) (happly : patch.apply original = .ok result) :
    patch.Framed original result ↔ patch.EndsKept original := by
  obtain ⟨new, hcut, rfl⟩ := (apply_iff patch original result).mp happly
  have hcounts : ∀ hunk ∈ patch.hunks, hunk.countsMatch = true :=
    fun hunk hmem => (parse_ok hparse hunk hmem).1
  have hclear : ∀ line ∈ new, '\n' ∉ line := by
    intro line hmem
    rcases hcut.mem_new hmem with hold | ⟨hunk, hhunk, hline⟩
    · exact fileLines_notMem hold
    · exact (parse_ok hparse hunk hhunk).2 line hline
  have hold : (fileLines original).length = (rawLines original).length := by
    rw [fileLines_eq, length_map]
  have hcount : new.length = patch.count original := by
    have hlength := hcut.length_new hcounts
    rw [count, ← hold]
    omega
  have hplace : ∀ i, named patch.hunks i = false →
      patch.place i + 0 + takenBefore patch.hunks i = i + putBefore patch.hunks i := by
    intro i hfree
    have hle := hcut.takenBefore_le hcounts (Nat.zero_le i) hfree
    rw [place]
    omega
  have hkept : ∀ i raw, (rawLines original)[i]? = some raw → named patch.hunks i = false →
      ((rawLines (joinLines (lineEnding original) (trailingNewline original) new))[patch.place i]? =
        some raw ↔ KeepsEnd original (patch.count original) (patch.place i) raw) := by
    intro i raw hraw hfree
    rw [← hcount]
    refine getElem?_joinLines_iff (mem_of_getElem? hraw) hclear ?_
    have hlt : i < (rawLines original).length := (List.getElem?_eq_some_iff.mp hraw).1
    rw [hcut.getElem?_new hcounts (Nat.zero_le i) (by omega) hfree (hplace i hfree), Nat.sub_zero,
      fileLines_eq, getElem?_map, hraw]
    rfl
  have hcontext : patch.contextOnly = true → new = fileLines original :=
    fun h => hcut.new_eq_old (newLines_eq_oldLines h)
  constructor
  · intro h
    refine ⟨fun i raw hraw hfree => (hkept i raw hraw hfree).mp (h.kept i raw hraw hfree), ?_⟩
    intro honly
    have hsame := h.context honly
    rw [hcontext honly] at hsame
    exact (joinLines_fileLines_iff original).mp hsame
  · intro h
    refine ⟨fun i raw hraw hfree => (hkept i raw hraw hfree).mpr (h.untouched i raw hraw hfree),
      ?_, ?_⟩
    · intro i j hlt _ hfree hfree'
      exact hcut.place_lt hcounts (Nat.zero_le i) hlt hfree hfree' (hplace i hfree) (hplace j hfree')
    · intro honly
      rw [hcontext honly]
      exact (joinLines_fileLines_iff original).mpr (h.context honly)

/-- In a file with one kind of terminator, a patch of its second line leaves the first alone. -/
theorem framed_iff_crlf :
    ∃ patch, parse "@@ -2,1 +2,1 @@\n-b\n+B\n".toList "n".toList = .ok patch ∧
      patch.apply "a\r\nb\r\n".toList = .ok "a\r\nB\r\n".toList ∧
      patch.Framed "a\r\nb\r\n".toList "a\r\nB\r\n".toList := by
  have hparse : parse "@@ -2,1 +2,1 @@\n-b\n+B\n".toList "n".toList =
      .ok ⟨[⟨2, 1, 1, [.removed "b".toList, .added "B".toList]⟩]⟩ := by decide +kernel
  have happly : UnifiedPatch.apply ⟨[⟨2, 1, 1, [.removed "b".toList, .added "B".toList]⟩]⟩
      "a\r\nb\r\n".toList = .ok "a\r\nB\r\n".toList := by decide +kernel
  refine ⟨_, hparse, happly, (framed_iff hparse happly).mpr ⟨?_, fun h => absurd h (by decide)⟩⟩
  intro i raw hraw hfree
  rcases i with _ | _ | i
  · cases hraw
    decide
  · cases hfree
  · cases hraw

/-- Where the terminators differ, a change of one line rewrites another; and a patch without
any change makes an empty line disappear. -/
theorem not_framed :
    (∃ patch result, parse "@@ -1,1 +1,1 @@\n-a\n+A\n".toList "n".toList = .ok patch ∧
      patch.apply "a\r\nb\n".toList = .ok result ∧ result = "A\r\nb\r\n".toList ∧
      ¬patch.Framed "a\r\nb\n".toList result) ∧
    ∃ patch result, parse "@@ -1,1 +1,1 @@\n \n".toList "n".toList = .ok patch ∧
      patch.apply "\n".toList = .ok result ∧ patch.contextOnly ∧ result = [] ∧
      ¬patch.Framed "\n".toList result := by
  refine ⟨⟨⟨[⟨1, 1, 1, [.removed "a".toList, .added "A".toList]⟩]⟩, _, by decide +kernel,
      by decide +kernel, rfl, ?_⟩,
    ⟨⟨[⟨1, 1, 1, [.context []]⟩]⟩, _, by decide +kernel, by decide +kernel, by decide, rfl, ?_⟩⟩
  · intro h
    exact absurd (h.kept 1 "b\n".toList (by decide) (by decide)) (by decide)
  · intro h
    exact absurd (h.context (by decide)) (by decide)

end UnifiedPatch

end GtaClaw.Tools
