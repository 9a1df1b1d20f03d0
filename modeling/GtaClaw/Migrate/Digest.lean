import Mathlib.Tactic
import GtaClaw.Lib.Strings

/-!
# Digests of reviewed trees

A migration plan names the digests of its sources, and applying the plan computes them
again. A file is hashed as it is. A directory is hashed entry by entry, in the order of
the names: the path of the entry below the root, a zero byte, what the entry holds, and a
byte `0xff`.

The trees here have no symbolic links, which the code refuses, and no special files.
-/

namespace GtaClaw.Migrate

open Lib List

abbrev Bytes := List UInt8

/-- A byte that ends a part of the digested text. -/
def Mark (byte : UInt8) : Prop := byte = 0 ∨ byte = 0xff

/-- The bytes of a name in UTF-8, which has no `0xff`. No operating system has a name with
a zero byte. -/
@[ext] structure FileName where
  bytes : Bytes
  clear : ∀ byte ∈ bytes, ¬Mark byte
  noSlash : 0x2f ∉ bytes
  deriving DecidableEq

/-- The entries of a directory, one after the other. -/
inductive Entries where
  | nil
  | file (name : FileName) (contents : Bytes) (rest : Entries)
  | directory (name : FileName) (inner : Entries) (rest : Entries)
  deriving DecidableEq

def Entries.first? : Entries → Option FileName
  | .nil => none
  | .file name _ _ | .directory name _ _ => some name

/-- In every directory the names ascend, as `sorted_entries` leaves them. -/
def Entries.sorted : Entries → Bool
  | .nil => true
  | .file name _ rest => rest.first?.all (name.bytes < ·.bytes) && rest.sorted
  | .directory name inner rest =>
    rest.first?.all (name.bytes < ·.bytes) && inner.sorted && rest.sorted

/-- A file or a directory, whose entries have different names and are read in their order. -/
inductive Tree where
  | file (contents : Bytes)
  | directory (entries : { entries : Entries // entries.sorted = true })
  deriving DecidableEq

def pathToSlashes (path : List FileName) : Bytes := [0x2f].intercalate (path.map (·.bytes))

/-- What an entry adds to the digested text, before the entries behind it. -/
def entryBytes (path : List FileName) (body behind : Bytes) : Bytes :=
  pathToSlashes path ++ 0 :: (body ++ 0xff :: behind)

/-- What `digest_directory` feeds to the hasher. -/
def digestDirectory (current : List FileName) : Entries → Bytes
  | .nil => []
  | .file name contents rest =>
    entryBytes (current ++ [name]) contents (digestDirectory current rest)
  | .directory name inner rest =>
    entryBytes (current ++ [name]) (digestDirectory (current ++ [name]) inner)
      (digestDirectory current rest)

section Digest

variable {δ Path : Type} [DecidableEq δ] (sha256 : Bytes → δ)

def digestPath : Tree → δ
  | .file contents => sha256 contents
  | .directory entries => sha256 (digestDirectory [] entries.val)

inductive MigrationError (Path : Type) where
  | invalidInput (path : Path) (reason : String)

/-- The digests of the sources of a plan, as a review finds them. -/
def collectSourceDigests (found : Path → Tree) (sources : List Path) : List (Path × δ) :=
  sources.map fun source => (source, digestPath sha256 (found source))

def verifySourceDigests (found : Path → Tree) :
    List (Path × δ) → Except (MigrationError Path) Unit
  | [] => .ok ()
  | (source, expected) :: rest =>
    if digestPath sha256 (found source) ≠ expected then
      .error (.invalidInput source "source changed after the reviewed dry-run plan")
    else verifySourceDigests found rest

end Digest

/-! ## Reading the bytes back -/

theorem pathToSlashes_clear : ∀ path : List FileName, ∀ byte ∈ pathToSlashes path, ¬Mark byte
  | [] => nofun
  | [name] => by simpa [pathToSlashes] using name.clear
  | name :: next :: rest => by
    have hrest := pathToSlashes_clear (next :: rest)
    rw [pathToSlashes, map_cons] at hrest ⊢
    rw [map_cons, intercalate_cons_cons]
    simp only [forall_mem_append, forall_mem_singleton]
    exact ⟨⟨name.clear, by simp [Mark]⟩, hrest⟩

theorem pathToSlashes_inj {current : List FileName} {name name' : FileName}
    (h : pathToSlashes (current ++ [name]) = pathToSlashes (current ++ [name'])) :
    name = name' := by
  have hsplit : ∀ name : FileName,
      (pathToSlashes (current ++ [name])).splitOn 0x2f = (current ++ [name]).map (·.bytes) :=
    fun name => splitOn_intercalate _ (forall_mem_map.mpr fun name _ => name.noSlash) (by simp)
  have hnames := hsplit name
  rw [h, hsplit name'] at hnames
  simpa [FileName.ext_iff] using hnames.symm

theorem entryBytes_inj {current : List FileName} {name name' : FileName}
    {body body' behind behind' text text' : Bytes}
    (h : entryBytes (current ++ [name]) body behind ++ text =
      entryBytes (current ++ [name']) body' behind' ++ text') :
    name = name' ∧ body ++ 0xff :: (behind ++ text) = body' ++ 0xff :: (behind' ++ text') := by
  simp only [entryBytes, append_assoc, cons_append] at h
  obtain ⟨hpath, -, hbody⟩ := append_mark_inj (pathToSlashes_clear _) (pathToSlashes_clear _)
    (.inl rfl) (.inl rfl) h
  exact ⟨pathToSlashes_inj hpath, hbody⟩

/-! ## Trees that their digest identifies -/

/-- No directory is empty, and no file has a byte that could be a mark. -/
def Entries.Plain : Entries → Prop
  | .nil => True
  | .file _ contents rest => (∀ byte ∈ contents, ¬Mark byte) ∧ rest.Plain
  | .directory _ inner rest => inner ≠ .nil ∧ inner.Plain ∧ rest.Plain

/-- Two trees that their digests tell apart: two files, two directories whose entries are plain,
or a directory and a file without a zero byte that are not both empty. -/
def Tree.Apart : Tree → Tree → Prop
  | .file _, .file _ => True
  | .directory entries, .directory entries' => entries.val.Plain ∧ entries'.val.Plain
  | .file contents, .directory entries | .directory entries, .file contents =>
    0 ∉ contents ∧ (contents = [] → entries.val ≠ .nil)

/-- A text that has no mark before its first `0xff` is not that of a directory with entries. -/
theorem clear_ne_digestDirectory {contents rest text : Bytes} {current : List FileName}
    {entries : Entries} (hcontents : ∀ byte ∈ contents, ¬Mark byte) (hne : entries ≠ .nil) :
    contents ++ 0xff :: rest ≠ digestDirectory current entries ++ text := by
  have hentry : ∀ path body behind,
      contents ++ 0xff :: rest ≠ entryBytes path body behind ++ text := by
    intro path body behind h
    simp only [entryBytes, append_assoc, cons_append] at h
    cases (append_mark_inj hcontents (pathToSlashes_clear path) (.inr rfl) (.inl rfl) h).2.1
  cases entries with
  | nil => exact absurd rfl hne
  | file => exact hentry _ _ _
  | directory => exact hentry _ _ _

theorem eq_nil_of_ff {text text' : Bytes} {current : List FileName} {entries : Entries}
    (h : 0xff :: text = digestDirectory current entries ++ text') : entries = .nil := by
  by_contra hne
  exact @clear_ne_digestDirectory [] text text' current entries nofun hne h

theorem digestDirectory_inj {current : List FileName} {entries entries' : Entries}
    {text text' : Bytes} (h : entries.Plain) (h' : entries'.Plain)
    (heq : digestDirectory current entries ++ 0xff :: text =
      digestDirectory current entries' ++ 0xff :: text') :
    entries = entries' ∧ text = text' := by
  induction entries generalizing current entries' text text' with
  | nil =>
    cases eq_nil_of_ff heq
    exact ⟨rfl, (cons.inj heq).2⟩
  | file name contents rest ih =>
    cases entries' with
    | nil => cases eq_nil_of_ff heq.symm
    | file name' contents' rest' =>
      obtain ⟨rfl, hbody⟩ := entryBytes_inj heq
      obtain ⟨rfl, -, hrest⟩ := append_mark_inj h.1 h'.1 (.inr rfl) (.inr rfl) hbody
      obtain ⟨rfl, htext⟩ := ih h.2 h'.2 hrest
      exact ⟨rfl, htext⟩
    | directory name' inner' rest' =>
      cases clear_ne_digestDirectory h.1 h'.1 (entryBytes_inj heq).2
  | directory name inner rest ihinner ih =>
    cases entries' with
    | nil => cases eq_nil_of_ff heq.symm
    | file name' contents' rest' =>
      cases clear_ne_digestDirectory h'.1 h.1 (entryBytes_inj heq).2.symm
    | directory name' inner' rest' =>
      obtain ⟨rfl, hbody⟩ := entryBytes_inj heq
      obtain ⟨rfl, hrest⟩ := ihinner h.2.1 h'.2.1 hbody
      obtain ⟨rfl, htext⟩ := ih h.2.2 h'.2.2 hrest
      exact ⟨rfl, htext⟩

section Review

variable {δ Path : Type} {sha256 : Bytes → δ}

/-- Every entry writes a zero byte. -/
theorem ne_digestDirectory {contents : Bytes} {entries : Entries} (hzero : 0 ∉ contents)
    (hempty : contents = [] → entries ≠ .nil) : contents ≠ digestDirectory [] entries := by
  rintro rfl
  cases entries with
  | nil => exact hempty rfl rfl
  | file | directory => simp [digestDirectory, entryBytes] at hzero

theorem digestPath_inj (hsha : Function.Injective sha256) {tree tree' : Tree}
    (h : tree.Apart tree') : digestPath sha256 tree = digestPath sha256 tree' ↔ tree = tree' := by
  refine ⟨fun heq => ?_, congrArg _⟩
  cases tree with
  | file contents =>
    cases tree' with
    | file contents' => rw [hsha heq]
    | directory entries' => exact absurd (hsha heq) (ne_digestDirectory h.1 h.2)
  | directory entries =>
    cases tree' with
    | file contents' => exact absurd (hsha heq).symm (ne_digestDirectory h.1 h.2)
    | directory entries' =>
      rw [Subtype.ext (digestDirectory_inj h.1 h.2 (congrArg (· ++ [0xff]) (hsha heq))).1]

/-- **A tree that no other has the digest of** is a file with bytes that no directory writes: a
directory has the digest of the file with the bytes it writes. -/
theorem digestPath_unique_iff (hsha : Function.Injective sha256) (tree : Tree) :
    (∀ tree', digestPath sha256 tree' = digestPath sha256 tree → tree' = tree) ↔
      ∃ contents, tree = .file contents ∧
        ∀ entries, entries.sorted = true → digestDirectory [] entries ≠ contents := by
  cases tree with
  | directory entries =>
    refine iff_of_false (fun h => ?_) (by simp)
    cases h (.file (digestDirectory [] entries.val)) rfl
  | file contents =>
    constructor
    · refine fun h => ⟨contents, rfl, fun entries hsorted heq => ?_⟩
      cases h (.directory ⟨entries, hsorted⟩) (congrArg sha256 heq)
    · rintro ⟨_, ⟨⟩, hnone⟩ tree' heq
      cases tree' with
      | file contents' => rw [hsha heq]
      | directory entries => exact absurd (hsha heq) (hnone entries.val entries.property)

/-- **Digests identify trees that can be told apart**, and so a plan is applied to the sources
that were reviewed; no directory is identified among all trees. -/
theorem digests_identify_trees [DecidableEq δ] (hsha : Function.Injective sha256) :
    (∀ tree tree' : Tree, tree.Apart tree' →
      (digestPath sha256 tree = digestPath sha256 tree' ↔ tree = tree')) ∧
    (∀ (reviewed found : Path → Tree) (sources : List Path),
      (∀ source ∈ sources, (found source).Apart (reviewed source)) →
      (verifySourceDigests sha256 found (collectSourceDigests sha256 reviewed sources) = .ok () ↔
        ∀ source ∈ sources, found source = reviewed source)) ∧
    ∀ tree : Tree, (∀ tree', digestPath sha256 tree' = digestPath sha256 tree → tree' = tree) ↔
      ∃ contents, tree = .file contents ∧
        ∀ entries, entries.sorted = true → digestDirectory [] entries ≠ contents := by
  refine ⟨fun _ _ => digestPath_inj hsha, fun reviewed found sources happart => ?_,
    digestPath_unique_iff hsha⟩
  induction sources with
  | nil => exact iff_of_true rfl nofun
  | cons source sources ih =>
    obtain ⟨hfirst, hrest⟩ := forall_mem_cons.mp happart
    rw [forall_mem_cons, ← ih hrest, ← digestPath_inj hsha hfirst]
    simp only [collectSourceDigests, map_cons, verifySourceDigests]
    split <;> simp_all

end Review

def nameA : FileName := ⟨[0x61], by simp [Mark], by decide⟩

def nameB : FileName := ⟨[0x62], by simp [Mark], by decide⟩

/-- A file that takes the place of another is noticed. -/
theorem digests_identify_trees_replaced :
    verifySourceDigests id (fun _ : Unit => .directory ⟨.file nameA [1] .nil, rfl⟩)
      (collectSourceDigests id (fun _ => .directory ⟨.file nameA [2] .nil, rfl⟩) [()]) ≠ .ok () := by
  have hplain : ∀ byte, ¬Mark byte → (Entries.file nameA [byte] .nil).Plain :=
    fun byte h => ⟨by simpa using h, trivial⟩
  have happart : Tree.Apart (.directory ⟨.file nameA [1] .nil, rfl⟩)
      (.directory ⟨.file nameA [2] .nil, rfl⟩) :=
    ⟨hplain 1 (by simp [Mark]), hplain 2 (by simp [Mark])⟩
  intro h
  have hsame := ((digests_identify_trees Function.injective_id).2.1 _ _ [()] fun _ _ => happart).mp h
  cases hsame () (by simp)

/-- An empty directory has the digest of an empty file, and two empty files that of one file
with the marks between them: what takes the place of a reviewed tree is not noticed. -/
theorem digest_confuses :
    let folder : Tree := .directory ⟨.directory nameA .nil .nil, rfl⟩
    let file : Tree := .directory ⟨.file nameA [] .nil, rfl⟩
    let files : Tree := .directory ⟨.file nameA [] (.file nameB [] .nil), rfl⟩
    let marked : Tree := .directory ⟨.file nameA [0xff, 0x62, 0] .nil, rfl⟩
    folder ≠ file ∧ digestPath id folder = digestPath id file ∧
      files ≠ marked ∧ digestPath id files = digestPath id marked ∧
      verifySourceDigests id (fun _ : Unit => file)
        (collectSourceDigests id (fun _ => folder) [()]) = .ok () := by
  refine ⟨by decide, by decide, by decide, by decide, rfl⟩

end GtaClaw.Migrate
