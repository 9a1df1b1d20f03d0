import GtaClaw.Channel.Text
import GtaClaw.Lib.Strings

/-!
# Unified diffs

`UnifiedPatch::parse` reads a unified diff for one file, and `apply` makes the change.
Both work on lines: `parse` tells the lines of a diff apart by how they begin, `apply`
takes the file apart at its line feeds, drops one carriage return from the end of each
line, and puts the lines of the result together again with the one line ending it found.

Texts are lists of characters. A line number is a natural number: the one addition the
source makes to a parsed number can only overflow into a hunk that is out of range anyway.
-/

namespace GtaClaw.Tools

open Channel (Text utf8Len trim)
open Lib

def maxPatchBytes : Nat := 256 * 1024

def maxHunks : Nat := 512

def usizeMax : Nat := 2 ^ 64 - 1

/-- Line terminator style preserved across a patch application. -/
inductive LineEnding where
  | lf
  | crlf
  deriving DecidableEq, Repr

def LineEnding.asStr : LineEnding → Text
  | .lf => ['\n']
  | .crlf => ['\r', '\n']

inductive HunkLine where
  | context (text : Text)
  | removed (text : Text)
  | added (text : Text)
  deriving DecidableEq, Repr

structure Hunk where
  oldStart : Nat
  oldCount : Nat
  newCount : Nat
  body : List HunkLine
  deriving DecidableEq, Repr

/-- A parsed unified diff restricted to a single file. -/
structure UnifiedPatch where
  hunks : List Hunk
  deriving DecidableEq, Repr

inductive PatchError where
  | empty
  | tooLong
  | missingHunkHeader
  | malformedHunkHeader
  | invalidLinePrefix
  | countMismatch
  | pathMismatch
  | multipleFiles
  | tooManyHunks
  | hunksOutOfOrder
  | outOfRange
  | contextMismatch
  deriving DecidableEq, Repr

/-- `strip_suffix(c).unwrap_or(text)`. -/
def stripEnd (c : Char) (text : Text) : Text :=
  if text.getLast? = some c then text.dropLast else text

/-! ## Reading a diff -/

def verifyHeaderPath (header path : Text) : Except PatchError Unit :=
  let candidate := trim (header.takeWhile (· ≠ '\t'))
  if candidate = "/dev/null".toList then .error .pathMismatch
  else
    let normalized := candidate.map fun c => if c = '\\' then '/' else c
    let stripped := (("a/".toList.isPrefixOf? normalized).or
      ("b/".toList.isPrefixOf? normalized)).getD normalized
    if stripped = path then .ok () else .error .pathMismatch

/-- `str::parse::<usize>`: a plus sign is allowed. -/
def parseUsize (text : Text) : Option Nat :=
  let digits := (['+'].isPrefixOf? text).getD text
  if digits.isEmpty ∨ ¬digits.all Char.isDigit then none
  else if Nat.ofDigitChars 10 digits 0 ≤ usizeMax then some (Nat.ofDigitChars 10 digits 0)
  else none

def parseRange (value : Text) : Except PatchError (Nat × Nat) :=
  let (start, count) := (splitOnce [','] value).getD (value, ['1'])
  match parseUsize start, parseUsize count with
  | some start, some count => .ok (start, count)
  | _, _ => .error .malformedHunkHeader

def parseHunkHeader (line : Text) : Except PatchError Hunk := do
  let some rest := "@@".toList.isPrefixOf? line | .error .malformedHunkHeader
  let some (ranges, _) := splitOnce "@@".toList rest | .error .malformedHunkHeader
  let some (old, new) := splitOnce [' '] (trim ranges) | .error .malformedHunkHeader
  let some old := ['-'].isPrefixOf? old | .error .malformedHunkHeader
  let some new := ['+'].isPrefixOf? (trim new) | .error .malformedHunkHeader
  let (oldStart, oldCount) ← parseRange old
  let (_, newCount) ← parseRange new
  if oldStart = 0 ∧ oldCount ≠ 0 then .error .outOfRange
  else .ok ⟨if oldCount = 0 then oldStart + 1 else oldStart, oldCount, newCount, []⟩

/-- What the line loop of `parse` keeps. -/
structure Parsing where
  hunks : List Hunk
  current : Option Hunk
  seenHunkHeader : Bool
  deriving DecidableEq, Repr

def Parsing.start : Parsing := ⟨[], none, false⟩

/-- The hunks so far, with the one that is being read. -/
def Parsing.all (s : Parsing) : List Hunk := s.hunks ++ s.current.toList

def noNewline : Text := "\\ No newline at end of file".toList

/-- A line of a hunk. -/
def Hunk.push (hunk : Hunk) (line : Text) : Except PatchError Hunk :=
  if line = noNewline then .ok hunk
  else
    match line with
    | ' ' :: text => .ok { hunk with body := hunk.body ++ [.context text] }
    | '-' :: text => .ok { hunk with body := hunk.body ++ [.removed text] }
    | '+' :: text => .ok { hunk with body := hunk.body ++ [.added text] }
    | [] => .ok { hunk with body := hunk.body ++ [.context []] }
    | _ => .error .invalidLinePrefix

/-- A `---` or `+++` line. -/
def Parsing.fileHeader (s : Parsing) (path header : Text) : Except PatchError Parsing :=
  if s.seenHunkHeader then .error .multipleFiles
  else (verifyHeaderPath header path).map fun _ => s

/-- A `@@` line. -/
def Parsing.hunkHeader (s : Parsing) (line : Text) : Except PatchError Parsing :=
  if s.all.length ≥ maxHunks then .error .tooManyHunks
  else (parseHunkHeader line).map fun hunk => ⟨s.all, some hunk, true⟩

/-- One line of the loop in `parse`. -/
def Parsing.line (path : Text) (s : Parsing) (raw : Text) : Except PatchError Parsing :=
  let line := stripEnd '\r' raw
  match "--- ".toList.isPrefixOf? line with
  | some header => s.fileHeader path header
  | none =>
    match "+++ ".toList.isPrefixOf? line with
    | some header => s.fileHeader path header
    | none =>
      if "diff ".toList.isPrefixOf line ∨ "index ".toList.isPrefixOf line then
        if s.seenHunkHeader then .error .multipleFiles else .ok s
      else if "@@".toList.isPrefixOf line then s.hunkHeader line
      else
        match s.current with
        | none => if line.isEmpty then .ok s else .error .missingHunkHeader
        | some hunk => (hunk.push line).map fun hunk => { s with current := some hunk }

/-- The lines that a hunk expects in the file. -/
def HunkLine.old? : HunkLine → Option Text
  | .context text => some text
  | .removed text => some text
  | .added _ => none

/-- The lines that a hunk leaves in the file. -/
def HunkLine.new? : HunkLine → Option Text
  | .context text => some text
  | .removed _ => none
  | .added text => some text

def Hunk.oldLines (hunk : Hunk) : List Text := hunk.body.filterMap HunkLine.old?

def Hunk.newLines (hunk : Hunk) : List Text := hunk.body.filterMap HunkLine.new?

/-- The declared lengths of a hunk agree with its body. -/
def Hunk.countsMatch (hunk : Hunk) : Bool :=
  hunk.oldLines.length == hunk.oldCount && hunk.newLines.length == hunk.newCount

namespace UnifiedPatch

def parse (patch expectedPath : Text) : Except PatchError UnifiedPatch :=
  if (trim patch).isEmpty then .error .empty
  else if utf8Len patch > maxPatchBytes then .error .tooLong
  else
    match ((stripEnd '\n' patch).splitOn '\n').foldlM (Parsing.line expectedPath) .start with
    | .error error => .error error
    | .ok s =>
      if s.all.isEmpty then .error .missingHunkHeader
      else if s.all.all Hunk.countsMatch then .ok ⟨s.all⟩
      else .error .countMismatch

end UnifiedPatch

/-! ## Making the change -/

/-- `original.contains("\r\n")`. -/
def containsCrlf (text : Text) : Bool := (text.zip text.tail).contains ('\r', '\n')

def lineEnding (original : Text) : LineEnding := if containsCrlf original then .crlf else .lf

def trailingNewline (original : Text) : Bool := original.getLast? == some '\n'

/-- The lines of a file, without their terminators. -/
def fileLines (original : Text) : List Text :=
  let lines := if original.isEmpty then [] else (original.splitOn '\n').map (stripEnd '\r')
  if trailingNewline original then lines.dropLast else lines

/-- What the hunk loop of `apply` keeps. -/
structure Applying where
  output : List Text
  cursor : Nat
  deriving DecidableEq, Repr

def Applying.entry (lines : List Text) (s : Applying) (entry : HunkLine) :
    Except PatchError Applying :=
  match entry with
  | .added text => .ok { s with output := s.output ++ [text] }
  | .context text =>
    match lines[s.cursor]? with
    | none => .error .outOfRange
    | some actual =>
      if actual ≠ text then .error .contextMismatch
      else .ok ⟨s.output ++ [actual], s.cursor + 1⟩
  | .removed text =>
    match lines[s.cursor]? with
    | none => .error .outOfRange
    | some actual =>
      if actual ≠ text then .error .contextMismatch
      else .ok { s with cursor := s.cursor + 1 }

/-- One hunk: copy the lines up to it, then follow its body. -/
def Applying.hunk (lines : List Text) (s : Applying) (hunk : Hunk) : Except PatchError Applying :=
  if hunk.oldStart = 0 then .error .outOfRange
  else
    let start := hunk.oldStart - 1
    if start < s.cursor then .error .hunksOutOfOrder
    else if start > lines.length then .error .outOfRange
    else
      hunk.body.foldlM (Applying.entry lines)
        ⟨s.output ++ (lines.take start).drop s.cursor, start⟩

/-- The text of the result: the lines joined, and a last terminator if there was one. -/
def joinLines (ending : LineEnding) (trailing : Bool) (output : List Text) : Text :=
  let joined := ending.asStr.intercalate output
  if trailing ∧ ¬joined.isEmpty then joined ++ ending.asStr else joined

def UnifiedPatch.apply (patch : UnifiedPatch) (original : Text) : Except PatchError Text :=
  let lines := fileLines original
  match patch.hunks.foldlM (Applying.hunk lines) ⟨[], 0⟩ with
  | .error error => .error error
  | .ok s =>
    .ok (joinLines (lineEnding original) (trailingNewline original)
      (s.output ++ lines.drop s.cursor))

example :
    (UnifiedPatch.parse "--- a/n\n+++ b/n\n@@ -2,2 +2,3 @@\n b\n-c\n+C\n+x\n".toList "n".toList).bind
        (·.apply "a\nb\nc\nd\n".toList) = .ok "a\nb\nC\nx\nd\n".toList := by
  decide +kernel

end GtaClaw.Tools
