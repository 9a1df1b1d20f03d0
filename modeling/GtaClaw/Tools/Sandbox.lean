import Mathlib.Data.Char
import Mathlib.Data.List.Lex
import Mathlib.Data.List.Sort
import GtaClaw.Channel.Text
import GtaClaw.Lib.Loop

/-!
# Paths of the sandbox

A `RelativePath` is made in two ways. `parse_relative` takes a text apart at both kinds of
separators and looks at the text as a whole; a listing takes one name at a time from the
file system and puts it behind the path of its directory (`child_of`).

The file system is what it answers to a listing: an error, or the names it has at these
components together with what `stat` says of each. Names are text; a name that is not is
left out by the listing. The answers may be any, so a tree that changes meanwhile is
covered.
-/

namespace GtaClaw.Tools

open Channel (Text utf8Len)
open Lib

structure SandboxLimits where
  maxPathComponents : Nat
  maxComponentBytes : Nat
  maxRelativeBytes : Nat
  maxDirectoryEntries : Nat
  maxWalkedFiles : Nat
  deriving DecidableEq, Repr

instance : Inhabited SandboxLimits := ⟨⟨32, 255, 1024, 4096, 20000⟩⟩

inductive SandboxError where
  | emptyPath
  | pathTooLong
  | controlCharacter
  | absolutePathForbidden
  | tooManyComponents
  | emptyComponent
  | componentTooLong
  | currentDirectoryComponentForbidden
  | parentTraversalForbidden
  | alternateDataStreamForbidden
  | invalidCharacter
  | trailingDotOrSpace
  | reservedDeviceName
  | directoryTooLarge
  | notFound
  | notADirectory
  | symlinkForbidden
  | raceDetected
  | io
  deriving DecidableEq, Repr

structure RelativePath where
  components : List Text
  normalized : Text
  deriving DecidableEq, Repr

/-! ## Components -/

/-- `char::is_control`. -/
def isControl (c : Char) : Bool := c.toNat < 0x20 || (0x7f ≤ c.toNat && c.toNat ≤ 0x9f)

def reservedDeviceNames : List String :=
  ["CON", "PRN", "AUX", "NUL", "CONIN$", "CONOUT$", "COM0", "COM1", "COM2", "COM3", "COM4",
    "COM5", "COM6", "COM7", "COM8", "COM9", "LPT0", "LPT1", "LPT2", "LPT3", "LPT4", "LPT5",
    "LPT6", "LPT7", "LPT8", "LPT9"]

/-- Superscript digits Windows also maps onto `COM`/`LPT` devices. -/
def superscriptDeviceDigits : List Char := ['¹', '²', '³']

/-- Characters that are invalid in a Windows file name or enable globbing. -/
def forbiddenComponentCharacters : List Char := ['<', '>', '"', '|', '?', '*', '\x00']

def isDriveDesignator : Text → Bool
  | letter :: ':' :: _ => letter.isAlpha
  | _ => false

def isReservedDeviceName (component : Text) : Bool :=
  let stem := component.takeWhile (· ≠ '.')
  let upper := stem.map Char.toUpper
  if reservedDeviceNames.any (·.toList == upper) then true
  else if upper.take 3 ≠ "COM".toList ∧ upper.take 3 ≠ "LPT".toList then false
  else
    match stem.drop 3 with
    | [digit] => superscriptDeviceDigits.contains digit
    | _ => false

def validateComponent (component : Text) (index : Nat) (limits : SandboxLimits) :
    Except SandboxError Text :=
  if component.isEmpty then .error .emptyComponent
  else if utf8Len component > limits.maxComponentBytes then .error .componentTooLong
  else if component.any isControl then .error .controlCharacter
  else if component.all (· == '.') then
    .error (if component = ['.'] then .currentDirectoryComponentForbidden
      else .parentTraversalForbidden)
  else if index = 0 ∧ isDriveDesignator component then .error .absolutePathForbidden
  else if component.contains ':' then .error .alternateDataStreamForbidden
  else if component.any forbiddenComponentCharacters.contains then .error .invalidCharacter
  else if component.head? = some ' ' ∨ component.getLast? = some ' ' ∨
      component.getLast? = some '.' ∨ component.head? = some '\uFEFF' then
    .error .trailingDotOrSpace
  else if isReservedDeviceName component then .error .reservedDeviceName
  else .ok component

/-! ## Paths from text -/

def isSeparator (c : Char) : Bool := c == '/' || c == '\\'

def joinPath (components : List Text) : Text := ['/'].intercalate components

/-- The components of a text, each checked with its place. -/
def validateComponents (limits : SandboxLimits) : Nat → List Text → Except SandboxError (List Text)
  | _, [] => .ok []
  | index, component :: rest =>
    match validateComponent component index limits with
    | .error error => .error error
    | .ok component =>
      match validateComponents limits (index + 1) rest with
      | .error error => .error error
      | .ok rest => .ok (component :: rest)

def parseRelative (input : Text) (limits : SandboxLimits) : Except SandboxError RelativePath :=
  if input.isEmpty then .error .emptyPath
  else if utf8Len input > limits.maxRelativeBytes then .error .pathTooLong
  else if input.any isControl then .error .controlCharacter
  else if input.head? = some '/' ∨ input.head? = some '\\' then .error .absolutePathForbidden
  else if input.head? = some '~' then .error .absolutePathForbidden
  else
    let raw := input.splitOnP isSeparator
    if raw.length > limits.maxPathComponents then .error .tooManyComponents
    else
      match validateComponents limits 0 raw with
      | .error error => .error error
      | .ok components =>
        let normalized := joinPath components
        if utf8Len normalized > limits.maxRelativeBytes then .error .pathTooLong
        else .ok ⟨components, normalized⟩

namespace RelativePath

def root : RelativePath := ⟨[], []⟩

def fileName (path : RelativePath) : Text := path.components.getLast?.getD []

def parent (path : RelativePath) : Option RelativePath :=
  if path.components.length ≤ 1 then none
  else some ⟨path.components.dropLast, joinPath path.components.dropLast⟩

/-- The text of a child, extended from the parent's rather than joined again. -/
def childText (parent : RelativePath) (component : Text) : Text :=
  (if parent.normalized.isEmpty then [] else parent.normalized ++ ['/']) ++ component

/-- The derived order: by components, then by the text. -/
def le (a b : RelativePath) : Prop :=
  a.components < b.components ∨ (a.components = b.components ∧ a.normalized ≤ b.normalized)

instance : DecidableRel le := fun _ _ => inferInstanceAs (Decidable (_ ∨ _))

end RelativePath

/-! ## Paths from listings -/

inductive EntryKind where
  | file
  | directory
  | link
  | other
  deriving DecidableEq, Repr

/-- A name a file system can hold: not empty, without a slash. -/
structure FileName where
  text : Text
  nonempty : text ≠ []
  noSlash : '/' ∉ text

/-- What the operating system answers when the directory with these components is listed:
its names, and for each what `stat` finds there. -/
abbrev FileSystem :=
  List Text → Except SandboxError (List (FileName × Except SandboxError (EntryKind × Nat)))

structure DirectoryEntry where
  path : RelativePath
  kind : EntryKind
  sizeBytes : Option Nat
  deriving DecidableEq, Repr

structure Sandbox where
  limits : SandboxLimits
  files : FileSystem

namespace Sandbox

variable (sandbox : Sandbox)

def relative (input : Text) : Except SandboxError RelativePath := parseRelative input sandbox.limits

def childOf (parent : RelativePath) (name : Text) : Except SandboxError RelativePath :=
  match validateComponent name 0 sandbox.limits with
  | .error error => .error error
  | .ok component =>
    if parent.components.length ≥ sandbox.limits.maxPathComponents then .error .tooManyComponents
    else
      let normalized := parent.childText component
      if utf8Len normalized > sandbox.limits.maxRelativeBytes then .error .pathTooLong
      else .ok ⟨parent.components ++ [component], normalized⟩

variable (path : RelativePath)

/-- One name of a listing: a name that makes no path is passed over. -/
def entry (entries : List DirectoryEntry)
    (found : FileName × Except SandboxError (EntryKind × Nat)) :
    Except SandboxError (List DirectoryEntry) :=
  match sandbox.childOf path found.1.text with
  | .error _ => .ok entries
  | .ok child =>
    match found.2 with
    | .error error => .error error
    | .ok (kind, size) => .ok (entries ++ [⟨child, kind, if kind = .file then some size else none⟩])

def enumerateDirectory : Except SandboxError (List DirectoryEntry) :=
  match sandbox.files path.components with
  | .error error => .error error
  | .ok names =>
    if names.length > sandbox.limits.maxDirectoryEntries then .error .directoryTooLarge
    else names.foldlM (sandbox.entry path) []

def readDirectory : Except SandboxError (List DirectoryEntry) :=
  (sandbox.enumerateDirectory path).map
    (·.insertionSort fun left right => left.path.le right.path)

/-! ## The walk -/

/-- What `walk_files` keeps. The top of the queue comes first. -/
structure Walk where
  queue : List RelativePath
  files : List RelativePath
  visited : Nat

def walkEntry (walk : Walk) (entry : DirectoryEntry) : Except SandboxError Walk :=
  let walk := { walk with visited := walk.visited + 1 }
  if walk.visited > sandbox.limits.maxWalkedFiles then .error .directoryTooLarge
  else
    match entry.kind with
    | .file => .ok { walk with files := walk.files ++ [entry.path] }
    | .directory => .ok { walk with queue := entry.path :: walk.queue }
    | .link => .ok walk
    | .other => .ok walk

def walkPass (walk : Walk) : Except SandboxError (Walk ⊕ List RelativePath) :=
  match walk.queue with
  | [] => .ok (.inr (walk.files.insertionSort RelativePath.le))
  | current :: queue =>
    match sandbox.enumerateDirectory current with
    | .error error => .error error
    | .ok entries => (entries.foldlM sandbox.walkEntry { walk with queue }).map .inl

/-- What is still to be done: every directory in the queue, and every entry to come. -/
def walkMeasure (walk : Walk) : Nat :=
  walk.queue.length + (sandbox.limits.maxWalkedFiles - walk.visited)

theorem walkPass_measure {sandbox : Sandbox} {walk next : Walk}
    (h : sandbox.walkPass walk = .ok (.inl next)) :
    sandbox.walkMeasure next < sandbox.walkMeasure walk := by
  unfold walkPass at h
  split at h
  · cases h
  rename_i current queue hqueue
  split at h
  · cases h
  obtain ⟨last, hlast, heq⟩ := map_ok h
  cases heq
  have hle : sandbox.walkMeasure next ≤ sandbox.walkMeasure { walk with queue } := by
    refine foldlM_inv (I := fun w => sandbox.walkMeasure w ≤ sandbox.walkMeasure { walk with queue })
      (fun walk _ _ _ hw hstep => Nat.le_trans ?_ hw) le_rfl hlast
    unfold walkEntry at hstep
    dsimp only at hstep
    split at hstep
    · cases hstep
    · split at hstep <;> cases hstep <;> simp only [walkMeasure, List.length_cons] <;> omega
  have hmore : sandbox.walkMeasure walk = sandbox.walkMeasure { walk with queue } + 1 := by
    simp only [walkMeasure, hqueue, List.length_cons]
    omega
  omega

def walkLoop : Loop Walk (Except SandboxError (List RelativePath)) :=
  Loop.fallible sandbox.walkPass sandbox.walkMeasure fun _ _ => walkPass_measure

def walkFiles : Except SandboxError (List RelativePath) := sandbox.walkLoop.run ⟨[path], [], 0⟩

end Sandbox

end GtaClaw.Tools
