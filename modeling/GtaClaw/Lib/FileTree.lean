import Mathlib.Data.List.Infix

/-!
# File trees with symbolic links

A tree maps the real location of a thing, the names from the root down to it, to a
directory, a file or a symbolic link. A path is walked component by component; a link
that is met is replaced by its target, at most a given number of times, as an
operating system does. Where a walk ends is a `Place`: something that exists, or a
name that is missing from a directory that exists.

`canonicalize` accepts the first kind only. `write` accepts both, and follows a link in
the last component like any other: that is how a file is made at the far end of a
link whose target does not exist.
-/

namespace GtaClaw.Lib

open List

inductive Seg where
  | here
  | up
  | name (name : String)
  deriving DecidableEq, Repr

structure LinkTarget where
  absolute : Bool
  segs : List Seg
  deriving DecidableEq, Repr

inductive Node (β : Type) where
  | dir
  | file (contents : β)
  | link (target : LinkTarget)
  deriving DecidableEq, Repr

/-- A real location: the names from the root. -/
abbrev Location := List String

structure FileTree (β : Type) where
  node : Location → Option (Node β)
  root : node [] = some .dir
  parent : ∀ location name, (node (location ++ [name])).isSome → node location = some .dir

inductive Place where
  | found (location : Location)
  | missing (dir : Location) (name : String)
  | fails
  deriving DecidableEq, Repr

namespace FileTree

variable {β : Type} (fs : FileTree β)

/-- Walk from a directory; `jump` goes on after a link. -/
def follow (jump : Location → List Seg → Place) : Location → List Seg → Place
  | dir, [] => .found dir
  | dir, .here :: rest => follow jump dir rest
  | dir, .up :: rest => follow jump dir.dropLast rest
  | dir, .name name :: rest =>
    match fs.node (dir ++ [name]) with
    | some .dir => follow jump (dir ++ [name]) rest
    | some (.file _) => if rest.isEmpty then .found (dir ++ [name]) else .fails
    | some (.link target) => jump (if target.absolute then [] else dir) (target.segs ++ rest)
    | none => if rest.isEmpty then .missing dir name else .fails

/-- Walk through at most this many links. -/
def walk : Nat → Location → List Seg → Place
  | 0 => fs.follow fun _ _ => .fails
  | links + 1 => fs.follow (walk links)

def resolve (links : Nat) (path : List String) : Place := fs.walk links [] (path.map .name)

def canonicalize (links : Nat) (path : List String) : Option Location :=
  match fs.resolve links path with
  | .found location => some location
  | .missing _ _ | .fails => none

/-! ## Where a walk can end -/

variable {fs}

def Dirs (fs : FileTree β) (dir : Location) : Prop := ∀ above, above <+: dir → fs.node above = some .dir

theorem dirs_root : Dirs fs [] := by
  intro above habove
  rw [prefix_nil.mp habove]
  exact fs.root

variable {dir : Location} {jump : Location → List Seg → Place}

theorem Dirs.concat {name : String} (h : Dirs fs dir)
    (hnode : fs.node (dir ++ [name]) = some .dir) : Dirs fs (dir ++ [name]) := by
  intro above habove
  rcases prefix_concat_iff.mp habove with rfl | hprefix
  · exact hnode
  · exact h above hprefix

theorem Dirs.up (h : Dirs fs dir) : Dirs fs dir.dropLast :=
  fun above habove => h above (habove.trans (List.dropLast_prefix dir))

/-- What a walk says of the tree. -/
def EndsAt (fs : FileTree β) : Place → Prop
  | .found location => Dirs fs location ∨
      ∃ dir name contents, location = dir ++ [name] ∧ Dirs fs dir ∧
        fs.node location = some (.file contents)
  | .missing dir name => Dirs fs dir ∧ fs.node (dir ++ [name]) = none
  | .fails => True

theorem endsAt_follow (hjump : ∀ dir segs, Dirs fs dir → EndsAt fs (jump dir segs)) :
    ∀ (segs : List Seg) (dir : Location), Dirs fs dir → EndsAt fs (fs.follow jump dir segs)
  | [], _, hdir => .inl hdir
  | .here :: rest, dir, hdir => endsAt_follow hjump rest dir hdir
  | .up :: rest, _, hdir => endsAt_follow hjump rest _ hdir.up
  | .name name :: rest, dir, hdir => by
    unfold follow
    split
    case h_1 hnode => exact endsAt_follow hjump rest _ (hdir.concat hnode)
    case h_2 contents hnode =>
      split
      · exact .inr ⟨dir, name, contents, rfl, hdir, hnode⟩
      · trivial
    case h_3 target hnode =>
      refine hjump _ _ ?_
      split
      · exact dirs_root
      · exact hdir
    case h_4 hnode =>
      split
      · exact ⟨hdir, hnode⟩
      · trivial

theorem endsAt_walk : ∀ (links : Nat) (dir : Location) (segs : List Seg), Dirs fs dir →
    EndsAt fs (fs.walk links dir segs)
  | 0, dir, segs, hdir =>
    have hfails : ∀ dir segs, Dirs fs dir → EndsAt fs ((fun _ _ => .fails) dir segs) :=
      fun _ (_ : List Seg) _ => trivial
    endsAt_follow hfails segs dir hdir
  | links + 1, dir, segs, hdir => endsAt_follow (endsAt_walk links) segs dir hdir

theorem endsAt_resolve (fs : FileTree β) (links : Nat) (path : List String) :
    EndsAt fs (fs.resolve links path) :=
  endsAt_walk links [] _ dirs_root

variable {links : Nat} {path : List String} {location : Location} {contents : β}

theorem canonicalize_eq_some :
    fs.canonicalize links path = some location ↔ fs.resolve links path = .found location := by
  unfold canonicalize
  cases fs.resolve links path with
  | found other | missing dir name | fails => simp

theorem follow_dirs (segs : List Seg) :
    ∀ (names : List String) (dir : Location), Dirs fs (dir ++ names) →
      fs.follow jump dir (names.map .name ++ segs) = fs.follow jump (dir ++ names) segs
  | [], dir, _ => by rw [map_nil, nil_append, append_nil]
  | name :: names, dir, h => by
    have hassoc : dir ++ name :: names = dir ++ [name] ++ names := by simp
    have hnode : fs.node (dir ++ [name]) = some .dir := h _ (hassoc ▸ prefix_append _ _)
    rw [hassoc] at h ⊢
    rw [← follow_dirs segs names _ h, map_cons, cons_append, follow, hnode]

theorem walk_dirs (links : Nat) (h : Dirs fs dir) (segs : List Seg) :
    fs.walk links [] (dir.map .name ++ segs) = fs.walk links dir segs := by
  cases links with
  | zero | succ links => exact follow_dirs segs dir [] h

/-- The walk to a name in a directory ends at a missing name: it is this one, or it is the last
one behind a link. -/
theorem resolve_concat_missing {dir' : Location} {name name' : String}
    (h : Dirs fs dir) (hmissing : fs.resolve links (dir ++ [name]) = .missing dir' name') :
    (dir' = dir ∧ name' = name) ∨ ∃ target, fs.node (dir ++ [name]) = some (.link target) := by
  rw [resolve, map_append, walk_dirs links h] at hmissing
  have hfollow : ∃ jump, fs.follow jump dir [.name name] = .missing dir' name' := by
    cases links with
    | zero | succ links => exact ⟨_, hmissing⟩
  obtain ⟨jump, hfollow⟩ := hfollow
  rw [follow] at hfollow
  split at hfollow
  · cases hfollow
  · cases hfollow
  · rename_i target hnode
    exact .inr ⟨target, hnode⟩
  · cases hfollow
    exact .inl ⟨rfl, rfl⟩

theorem resolve_below_file {name below : String} (links : Nat)
    (h : Dirs fs dir) (hnode : fs.node (dir ++ [name]) = some (.file contents)) :
    fs.resolve links (dir ++ [name] ++ [below]) = .fails := by
  have hpath : (dir ++ [name] ++ [below]).map Seg.name
      = dir.map Seg.name ++ [.name name, .name below] := by simp
  unfold resolve
  rw [hpath, walk_dirs links h]
  cases links with
  | zero | succ links => rw [walk, follow, hnode]; rfl

/-! ## Writing -/

/-- A file, or a name that is missing from a directory. -/
inductive Writable (fs : FileTree β) : Location → Prop
  | file {location : Location} {contents : β} (h : fs.node location = some (.file contents)) :
      Writable fs location
  | missing {dir : Location} {name : String} (hdir : fs.node dir = some .dir)
      (h : fs.node (dir ++ [name]) = none) : Writable fs (dir ++ [name])

theorem Writable.child_eq_none (h : Writable fs location) (name : String) :
    fs.node (location ++ [name]) = none := by
  rw [← Option.not_isSome_iff_eq_none]
  intro hsome
  have hdir := fs.parent location name hsome
  cases h with rw [h] at hdir
  | file h | missing _ h => cases hdir

theorem Writable.parent_eq_dir {name : String} (h : Writable fs (dir ++ [name])) :
    fs.node dir = some .dir := by
  generalize hlocation : dir ++ [name] = location at h
  cases h with
  | file h => exact fs.parent dir name (by rw [hlocation, h]; rfl)
  | missing hdir _ =>
    obtain ⟨rfl, -⟩ := append_inj' hlocation rfl
    exact hdir

theorem Writable.ne_root (h : Writable fs []) : False := by
  generalize hlocation : ([] : Location) = location at h
  cases h with
  | file h =>
    subst hlocation
    rw [fs.root] at h
    cases h
  | missing _ _ => simp at hlocation

def put (fs : FileTree β) (location : Location) (contents : β) (h : Writable fs location) :
    FileTree β where
  node := Function.update fs.node location (some (.file contents))
  root := by
    have hne : [] ≠ location := by
      rintro rfl
      exact h.ne_root
    rw [Function.update_of_ne hne]
    exact fs.root
  parent := by
    intro dir name hsome
    by_cases hdir : dir = location
    · subst hdir
      rw [Function.update_of_ne (by simp), h.child_eq_none] at hsome
      cases hsome
    rw [Function.update_of_ne hdir]
    by_cases hchild : dir ++ [name] = location
    · subst hchild
      exact h.parent_eq_dir
    · rw [Function.update_of_ne hchild] at hsome
      exact fs.parent dir name hsome

/-- Where a write through this path would put the file. -/
def writePlace (fs : FileTree β) (links : Nat) (path : List String) : Option Location :=
  match fs.resolve links path with
  | .found location =>
    match fs.node location with
    | some (.file _) => some location
    | _ => none
  | .missing dir name => some (dir ++ [name])
  | .fails => none

theorem writable_writePlace
    (h : fs.writePlace links path = some location) : Writable fs location := by
  have hends := fs.endsAt_resolve links path
  unfold writePlace at h
  split at h
  · split at h
    · rename_i hnode
      cases h
      exact .file hnode
    · cases h
  · rename_i dir name hresolve
    cases h
    rw [hresolve] at hends
    exact .missing (hends.1 dir (prefix_refl dir)) hends.2
  · cases h

/-- Open for writing, creating the file if it is missing, and replace what is in it. -/
def write (fs : FileTree β) (links : Nat) (path : List String) (contents : β) :
    Option (FileTree β) :=
  match h : fs.writePlace links path with
  | some location => some (fs.put location contents (writable_writePlace h))
  | none => none

theorem write_eq_none : fs.write links path contents = none ↔ fs.writePlace links path = none := by
  unfold write
  split
  · rename_i location h
    simp [h]
  · rename_i h
    simp [h]

theorem node_write {fs' : FileTree β} (h : fs.write links path contents = some fs') :
    ∃ location, fs.writePlace links path = some location ∧
      fs'.node = Function.update fs.node location (some (.file contents)) := by
  unfold write at h
  split at h
  · rename_i location hplace
    cases h
    exact ⟨location, hplace, rfl⟩
  · cases h

end FileTree

end GtaClaw.Lib
