import GtaClaw.Tools.PatchFrame

/-!
# What `parse` and `apply` answer

`parse` makes one addition, to the start of an empty old range, and it can overflow. What it
accepts is applied exactly if the blocks of the hunks lie in the file one behind the other,
each with the lines the hunk expects (`Fits`); the result has them exchanged (`exchanged`).
-/

namespace GtaClaw.Tools

open Channel (Text utf8Len trim)
open Lib
open List hiding all

/-! ## The addition -/

variable {line path raw : Text} {hunk : Hunk} {s next : Parsing}

/-- The old blocks of the hunks lie behind line `n`, one behind the other and inside the file,
and hold the lines that the hunks expect. -/
def Fits (lines : List Text) : Nat → List Hunk → Prop
  | _, [] => True
  | n, hunk :: hunks =>
    n < hunk.oldStart ∧ hunk.start + hunk.oldCount ≤ lines.length ∧
      (lines.drop hunk.start).take hunk.oldCount = hunk.oldLines ∧
      Fits lines (hunk.start + hunk.oldCount) hunks

end GtaClaw.Tools
