import GtaClaw.Lib.FileTree

/-!
# File writes of a plugin

A plugin names a file by a relative path of plain names. The host finds the parent
directory under one of the granted roots, makes sure that its real location is still
under that root, does the same for the file if it exists, and then opens the path.
Nothing else touches the files meanwhile.

If the last component is a link whose target does not exist, the second check has
nothing to look at, and opening the path creates the target wherever it is. That is
the only way out of the roots.
-/

namespace GtaClaw.Plugin

open Lib FileTree

/-- How many links one path may go through. -/
def maxLinks : Nat := 40

/-! ## Paths -/

/-- The control characters. -/
def isControl (c : Char) : Bool := c.toNat < 0x20 || (0x7f ≤ c.toNat && c.toNat ≤ 0x9f)

def validateSegment (segment : List Char) : Except String String :=
  if segment.isEmpty then .error "path must not contain an empty segment"
  else if segment == ['.'] || segment == ['.', '.'] then
    .error "path must not contain `.` or `..` segments"
  else if segment.getLast? == some ' ' || segment.getLast? == some '.' then
    .error "path segments must not end with a space or a dot"
  else .ok (String.ofList segment)

/-- The plain names of the path. A list of such names has no other components, so the check of
the parsed form at the end of the source has nothing left to refuse. -/
def validateRelativePath (path : String) : Except String (List String) :=
  if path.isEmpty then .error "path must not be empty"
  else if path.utf8ByteSize > 1024 then .error "path is longer than 1024 bytes"
  else if path.toList.contains (Char.ofNat 0) then .error "path must not contain NUL"
  else if path.toList.any isControl then .error "path must not contain control characters"
  else if path.toList.contains '\\' then .error "path must use `/` as its separator"
  else if path.toList.contains ':' then .error "path must not contain `:`"
  else if path.toList.head? == some '/' then .error "path must be relative"
  else (path.toList.splitOn '/').mapM validateSegment

/-- `join_under_root`. -/
def joinUnderRoot (root : Location) (relative : List String) : List String := root ++ relative

/-! ## The host -/

abbrev Tree := FileTree (List UInt8)

/-- One root of `resolve_parent_under_roots`: the path to open, if it is this root's. -/
def targetUnderRoot (fs : Tree) (parent : List String) (fileName : String) (root : Location) :
    Option (List String) :=
  match fs.canonicalize maxLinks (joinUnderRoot root parent) with
  | none => none
  | some canonical =>
    if !root.isPrefixOf canonical then none
    else
      match fs.canonicalize maxLinks (canonical ++ [fileName]) with
      | some existing =>
        if root.isPrefixOf existing then some (canonical ++ [fileName]) else none
      | none => some (canonical ++ [fileName])

def resolveParentUnderRoots (fs : Tree) (roots : List Location) (relative : List String) :
    Option (List String) :=
  match relative.getLast? with
  | none => none
  | some fileName => roots.findSome? (targetUnderRoot fs relative.dropLast fileName)

inductive DenialReason where
  /-- What `enter` refuses: the phase, the grant, the deadline, the limits on calls. -/
  | entry (reason : String)
  | notGranted
  | invalidArgument (reason : String)
  | quotaExceeded (reason : String)
  | outOfScope (reason : String)
  deriving DecidableEq, Repr

structure FilesystemGrant where
  maxFileBytes : Nat

/-- What a call reads of the state of a plugin. -/
structure PluginState where
  /-- What `enter` says for this call. -/
  entry : Except String Unit
  filesystemWrite : Option FilesystemGrant
  maxPayloadBytes : Nat
  writeRoots : List Location

inductive Outcome where
  | denied (reason : DenialReason)
  | ioError
  | written
  deriving DecidableEq, Repr

/-- `write_file` up to the opening of the file: the path that is opened. -/
def checkWrite (state : PluginState) (fs : Tree) (path : String) (contents : List UInt8) :
    Except DenialReason (List String) :=
  match state.entry with
  | .error reason => .error (.entry reason)
  | .ok () =>
    match validateRelativePath path with
    | .error reason => .error (.invalidArgument reason)
    | .ok relative =>
      match state.filesystemWrite with
      | none => .error .notGranted
      | some grant =>
        if contents.length > min grant.maxFileBytes state.maxPayloadBytes then
          .error (.quotaExceeded (toString contents.length ++ " bytes exceeds the "
            ++ toString (min grant.maxFileBytes state.maxPayloadBytes) ++ " byte limit"))
        else
          match resolveParentUnderRoots fs state.writeRoots relative with
          | some resolved => .ok resolved
          | none => .error (.outOfScope
              ("`" ++ path ++ "` does not resolve inside a granted write root"))

def writeFile (state : PluginState) (fs : Tree) (path : String) (contents : List UInt8) :
    Outcome × Tree :=
  match checkWrite state fs path contents with
  | .error reason => (.denied reason, fs)
  | .ok resolved =>
    match fs.write maxLinks resolved contents with
    | some fs' => (.written, fs')
    | none => (.ioError, fs)

/-! ## Where the path leads -/

variable {fs : Tree} {state : PluginState} {path : String} {contents : List UInt8}
  {target : List String} {place : Location} {parent target : List String}

theorem checkWrite_ok (h : checkWrite state fs path contents = .ok target) :
    ∃ root ∈ state.writeRoots, ∃ parent fileName,
      targetUnderRoot fs parent fileName root = some target := by
  unfold checkWrite at h
  split at h
  · cases h
  split at h
  · cases h
  split at h
  · cases h
  split at h
  · cases h
  split at h
  · rename_i hresolved
    cases h
    unfold resolveParentUnderRoots at hresolved
    split at hresolved
    · cases hresolved
    · obtain ⟨root, hroot, htarget⟩ := List.exists_of_findSome?_eq_some hresolved
      exact ⟨root, hroot, _, _, htarget⟩
  · cases h

theorem targetUnderRoot_cases {fileName : String} {root : Location}
    (h : targetUnderRoot fs parent fileName root = some target) :
    ∃ canonical, fs.canonicalize maxLinks (joinUnderRoot root parent) = some canonical ∧
      root <+: canonical ∧ target = canonical ++ [fileName] ∧
      ∀ existing, fs.canonicalize maxLinks target = some existing → root <+: existing := by
  unfold targetUnderRoot at h
  split at h
  · cases h
  rename_i canonical hcanonical
  split at h
  · cases h
  rename_i hroot
  have hroot : root <+: canonical := by simpa using hroot
  split at h
  · rename_i existing hexisting
    split at h
    · rename_i hinside
      cases h
      refine ⟨canonical, hcanonical, hroot, rfl, fun other hother => ?_⟩
      rw [hexisting] at hother
      cases hother
      simpa using hinside
    · cases h
  · rename_i hnone
    cases h
    refine ⟨canonical, hcanonical, hroot, rfl, fun other hother => ?_⟩
    rw [hnone] at hother
    cases hother

/-- The path is a link whose target does not exist, and whoever opens it makes the file at
`place`. -/
structure DanglesTo (fs : Tree) (target : List String) (place : Location) : Prop where
  isLink : ∃ link, fs.node target = some (.link link)
  missing : ∃ dir name, fs.resolve maxLinks target = .missing dir name ∧ place = dir ++ [name]

theorem DanglesTo.writePlace
    (h : DanglesTo fs target place) : fs.writePlace maxLinks target = some place := by
  obtain ⟨dir, name, hresolve, rfl⟩ := h.missing
  unfold FileTree.writePlace
  rw [hresolve]

/-- A path that passed the checks leads to a place under its root, or it is a dangling link. -/
theorem inside_or_dangles {fileName : String} {root place : Location}
    (h : targetUnderRoot fs parent fileName root = some target)
    (hplace : fs.writePlace maxLinks target = some place) :
    root <+: place ∨ DanglesTo fs target place := by
  obtain ⟨canonical, hcanonical, hroot, rfl, hexisting⟩ := targetUnderRoot_cases h
  unfold writePlace at hplace
  split at hplace
  · rename_i location hresolve
    split at hplace
    · cases hplace
      exact .inl (hexisting place (canonicalize_eq_some.mpr hresolve))
    · cases hplace
  · rename_i dir name hresolve
    cases hplace
    have hends := fs.endsAt_resolve maxLinks (joinUnderRoot root parent)
    rw [canonicalize_eq_some.mp hcanonical] at hends
    rcases hends with hdirs | ⟨above, file, contents, rfl, hdirs, hfile⟩
    · rcases resolve_concat_missing hdirs hresolve with ⟨rfl, rfl⟩ | hlink
      · exact .inl (hroot.trans (List.prefix_append _ _))
      · exact .inr ⟨hlink, dir, name, hresolve, rfl⟩
    · rw [resolve_below_file maxLinks hdirs hfile] at hresolve
      cases hresolve
  · cases hplace

/-! ## What a write can change -/

theorem DanglesTo.node_eq_none (h : DanglesTo fs target place) : fs.node place = none := by
  obtain ⟨dir, name, hresolve, rfl⟩ := h.missing
  have hends := fs.endsAt_resolve maxLinks target
  rw [hresolve] at hends
  exact hends.2

/-- The call opens a link whose target does not exist and lies outside of all write roots. -/
def OpensLinkOut (state : PluginState) (fs : Tree) (path : String) (contents : List UInt8) : Prop :=
  ∃ target place, checkWrite state fs path contents = .ok target ∧ DanglesTo fs target place ∧
    ∀ root ∈ state.writeRoots, ¬ root <+: place

/-- **Where plugin writes go**: everything that a call changes is under a write root, exactly if
the path that it opens is not a dangling link out of them. -/
theorem writes_inside_iff_no_link_out (state : PluginState) (fs : Tree) (path : String)
    (contents : List UInt8) :
    (∀ location, (writeFile state fs path contents).2.node location ≠ fs.node location →
      ∃ root ∈ state.writeRoots, root <+: location) ↔
    ¬ OpensLinkOut state fs path contents := by
  constructor
  · rintro hinside ⟨target, place, hcheck, hdangles, hout⟩
    have hchanged : (writeFile state fs path contents).2.node place ≠ fs.node place := by
      cases hwrite : fs.write maxLinks target contents with
      | none =>
        rw [write_eq_none, hdangles.writePlace] at hwrite
        cases hwrite
      | some fs' =>
        obtain ⟨other, hother, hnode⟩ := node_write hwrite
        rw [hdangles.writePlace] at hother
        cases hother
        simp only [writeFile, hcheck, hwrite]
        rw [hnode, Function.update_self, hdangles.node_eq_none]
        simp
    obtain ⟨root, hroot, hprefix⟩ := hinside place hchanged
    exact hout root hroot hprefix
  · intro hno location hchanged
    -- a call that opens its file changes the file at the place that the path leads to
    unfold writeFile at hchanged
    split at hchanged
    · exact absurd rfl hchanged
    rename_i target hcheck
    split at hchanged
    swap
    · exact absurd rfl hchanged
    rename_i fs' hwrite
    obtain ⟨place, hplace, hnode⟩ := node_write hwrite
    have hlocation : location = place := by
      by_contra hne
      rw [hnode, Function.update_of_ne hne] at hchanged
      exact hchanged rfl
    subst hlocation
    obtain ⟨root, hroot, parent, fileName, htarget⟩ := checkWrite_ok hcheck
    rcases inside_or_dangles htarget hplace with hinside | hdangles
    · exact ⟨root, hroot, hinside⟩
    by_contra hout
    refine hno ⟨target, location, hcheck, hdangles, fun other hother hprefix => ?_⟩
    exact hout ⟨other, hother, hprefix⟩

/-! ### A link out of the root -/

/-- A granted root with a link to a file that does not exist yet. -/
abbrev linkedNodes : Location → Option (Node (List UInt8))
  | [] => some .dir
  | ["plugin"] => some .dir
  | ["outside"] => some .dir
  | ["plugin", "notes"] => some .dir
  | ["plugin", "out"] => some (.link ⟨true, [.name "outside", .name "created"]⟩)
  | _ => none

theorem linkedNodes_parent (location : Location) (name : String)
    (h : (linkedNodes (location ++ [name])).isSome) : linkedNodes location = some .dir := by
  match location with
  | [] => rfl
  | [first] =>
    unfold linkedNodes at h
    split at h
    case h_4 heq =>
      cases heq
      rfl
    case h_5 heq =>
      cases heq
      rfl
    all_goals simp_all
  | first :: second :: rest =>
    unfold linkedNodes at h
    split at h
    all_goals simp_all

abbrev linked : Tree := ⟨linkedNodes, rfl, linkedNodes_parent⟩

abbrev granted : PluginState := ⟨.ok (), some ⟨100⟩, 100, [["plugin"]]⟩

theorem write_through_dangling_link :
    (writeFile granted linked "out" [1]).1 = .written ∧
    (writeFile granted linked "out" [1]).2.node ["outside", "created"] = some (.file [1]) ∧
    linked.node ["outside", "created"] = none ∧
    ∀ root ∈ granted.writeRoots, ¬ root <+: ["outside", "created"] := by
  decide +kernel

theorem write_inside_root :
    (writeFile granted linked "notes/today" [1]).1 = .written ∧
    ∀ location, (writeFile granted linked "notes/today" [1]).2.node location ≠ linked.node location →
      ∃ root ∈ granted.writeRoots, root <+: location := by
  refine ⟨by decide +kernel, (writes_inside_iff_no_link_out _ _ _ _).mpr ?_⟩
  rintro ⟨target, place, hcheck, ⟨⟨link, hlink⟩, -⟩, -⟩
  have htarget : checkWrite granted linked "notes/today" [1] = .ok ["plugin", "notes", "today"] := by
    decide +kernel
  rw [htarget] at hcheck
  cases hcheck
  cases hlink

end GtaClaw.Plugin
