import Mathlib.Tactic

/-!
# What an update recovers to

An update that swaps the installed object keeps a journal with the digest of the new
object. An object is digested from the top: a name with its length in front, the
permission bits, the word `file` with the length and the contents, or the word `directory`
and then the entries in the order of their names. Nothing marks the end of a directory.

The objects here have no links and no special files, which the code refuses, and names in
UTF-8.
-/

namespace GtaClaw.Updater

open List

abbrev Bytes := List UInt8

/-- `to_be_bytes` of an integer of so many bytes. -/
def beBytes : Nat → Nat → Bytes
  | 0, _ => []
  | width + 1, n => beBytes width (n / 256) ++ [UInt8.ofNat n]

/-- A name or the contents of a file: no more than a `u64` can count. -/
abbrev Sized := { bytes : Bytes // bytes.length < 256 ^ 8 }

/-- `metadata.mode() & 0o777`. -/
abbrev Permissions := Fin 512

/-- The entries of a directory, one after the other. -/
inductive Entries where
  | nil
  | file (name : Sized) (mode : Permissions) (contents : Sized) (rest : Entries)
  | directory (name : Sized) (mode : Permissions) (inner : Entries) (rest : Entries)
  deriving DecidableEq

/-- The name of the first entry. -/
def Entries.first? : Entries → Option Bytes
  | .nil => none
  | .file name _ _ _ | .directory name _ _ _ => some name.val

/-- In every directory the names ascend, as `sort_unstable` leaves them. -/
def Entries.sorted : Entries → Bool
  | .nil => true
  | .file name _ _ rest => rest.first?.all (name.val < ·) && rest.sorted
  | .directory name _ inner rest =>
    rest.first?.all (name.val < ·) && inner.sorted && rest.sorted

/-- A file or a directory, whose entries have different names and are read in their order. -/
inductive Object where
  | file (mode : Permissions) (contents : Sized)
  | directory (mode : Permissions) (entries : { entries : Entries // entries.sorted = true })
  deriving DecidableEq

/-- The length as eight bytes, then the bytes. -/
def sized (data : Sized) : Bytes := beBytes 8 data.val.length ++ data.val

def word (text : String) : Bytes := text.toList.map fun c => UInt8.ofNat c.toNat

def fileBytes (mode : Permissions) (contents : Sized) : Bytes :=
  beBytes 4 mode ++ (word "file" ++ sized contents)

def directoryBytes (mode : Permissions) (entries : Bytes) : Bytes :=
  beBytes 4 mode ++ (word "directory" ++ entries)

/-- What `update_object_digest` feeds to the hasher for the entries of a directory. -/
def Entries.bytes : Entries → Bytes
  | .nil => []
  | .file name mode contents rest => sized name ++ (fileBytes mode contents ++ rest.bytes)
  | .directory name mode inner rest => sized name ++ (directoryBytes mode inner.bytes ++ rest.bytes)

def Object.bytes : Object → Bytes
  | .file mode contents => fileBytes mode contents
  | .directory mode entries => directoryBytes mode entries.val.bytes

section Recover

variable {δ : Type} [DecidableEq δ] (sha256 : Bytes → δ)

def objectDigest (object : Object) : δ := sha256 object.bytes

/-- What a recovery finds: the digest of the journal, the object at the target and the
backup of the object that was there before. -/
structure Staging (δ : Type) where
  journal : Option δ
  target : Option Object
  backup : Option Object
  deriving DecidableEq

inductive UpdateError where
  | swapRecoveryConflict
  deriving DecidableEq

def recoverInterruptedSwap (stage : Staging δ) : Except UpdateError (Staging δ) :=
  match stage.journal, stage.target, stage.backup with
  | none, _, none => .ok stage
  | none, none, some backup | some _, none, some backup => .ok ⟨none, some backup, none⟩
  | some journal, some target, backup =>
    -- with a wrong target, the backup takes its place if there is one
    if objectDigest sha256 target ≠ journal then .ok ⟨none, backup, none⟩
    else .ok ⟨none, some target, none⟩
  | none, some _, some _ | some _, none, none => .error .swapRecoveryConflict

end Recover

/-! ## Reading the bytes back -/

theorem beBytes_length (width n : Nat) : (beBytes width n).length = width := by
  induction width generalizing n with
  | zero => rfl
  | succ width ih => rw [beBytes, length_append, ih, length_singleton]

theorem beBytes_inj {width n n' : Nat} (h : n < 256 ^ width) (h' : n' < 256 ^ width)
    (heq : beBytes width n = beBytes width n') : n = n' := by
  induction width generalizing n n' with
  | zero => omega
  | succ width ih =>
    obtain ⟨hhigh, hlow⟩ := append_inj' heq rfl
    have hdiv : n / 256 = n' / 256 := by
      refine ih ?_ ?_ hhigh
      all_goals omega
    have hmod := congrArg UInt8.toNat (cons.inj hlow).1
    rw [UInt8.toNat_ofNat', UInt8.toNat_ofNat'] at hmod
    omega

theorem append_beBytes_inj {width n n' : Nat} {rest rest' : Bytes} (h : n < 256 ^ width)
    (h' : n' < 256 ^ width) (heq : beBytes width n ++ rest = beBytes width n' ++ rest') :
    n = n' ∧ rest = rest' := by
  obtain ⟨hbytes, hrest⟩ := append_inj heq (by rw [beBytes_length, beBytes_length])
  exact ⟨beBytes_inj h h' hbytes, hrest⟩

theorem sized_inj {data data' : Sized} {rest rest' : Bytes}
    (h : sized data ++ rest = sized data' ++ rest') : data = data' ∧ rest = rest' := by
  rw [sized, sized, append_assoc, append_assoc] at h
  obtain ⟨hlength, hrest⟩ := append_beBytes_inj data.2 data'.2 h
  obtain ⟨hdata, hrest⟩ := append_inj hrest hlength
  exact ⟨Subtype.ext hdata, hrest⟩

theorem mode_inj {mode mode' : Permissions} {rest rest' : Bytes}
    (h : beBytes 4 mode ++ rest = beBytes 4 mode' ++ rest') : mode = mode' ∧ rest = rest' := by
  obtain ⟨hmode, hrest⟩ := append_beBytes_inj (by omega) (by omega) h
  exact ⟨Fin.ext hmode, hrest⟩

/-! ## What the digest tells -/

/-- An entry as it is digested, without what it contains. -/
inductive Item where
  | file (name : Sized) (mode : Permissions) (contents : Sized)
  | directory (name : Sized) (mode : Permissions)
  deriving DecidableEq

def Item.bytes : Item → Bytes
  | .file name mode contents => sized name ++ fileBytes mode contents
  | .directory name mode => sized name ++ directoryBytes mode []

/-- The entries in the order in which they are visited, whatever directory they are in. -/
def Entries.listing : Entries → List Item
  | .nil => []
  | .file name mode contents rest => .file name mode contents :: rest.listing
  | .directory name mode inner rest => .directory name mode :: (inner.listing ++ rest.listing)

def Object.listing : Object → Permissions × (Sized ⊕ List Item)
  | .file mode contents => (mode, .inl contents)
  | .directory mode entries => (mode, .inr entries.val.listing)

theorem Entries.bytes_eq (entries : Entries) : entries.bytes = entries.listing.flatMap Item.bytes := by
  induction entries with
  | nil => rfl
  | file name mode contents rest ih => simp [bytes, listing, Item.bytes, ih]
  | directory name mode inner rest ihinner ih =>
    simp [bytes, listing, Item.bytes, directoryBytes, ihinner, ih]

theorem Item.bytes_inj {item item' : Item} {rest rest' : Bytes}
    (h : item.bytes ++ rest = item'.bytes ++ rest') : item = item' ∧ rest = rest' := by
  cases item with
  | file name mode contents =>
    cases item' with
    | file name' mode' contents' =>
      simp only [Item.bytes, fileBytes, append_assoc] at h
      obtain ⟨rfl, hbody⟩ := sized_inj h
      obtain ⟨rfl, hword⟩ := mode_inj hbody
      obtain ⟨rfl, hrest⟩ := sized_inj (append_cancel_left hword)
      exact ⟨rfl, hrest⟩
    | directory name' mode' =>
      simp only [Item.bytes, append_assoc] at h
      cases (mode_inj (sized_inj h).2).2
  | directory name mode =>
    cases item' with
    | file name' mode' contents' =>
      simp only [Item.bytes, append_assoc] at h
      cases (mode_inj (sized_inj h).2).2
    | directory name' mode' =>
      simp only [Item.bytes, directoryBytes, append_assoc] at h
      obtain ⟨rfl, hbody⟩ := sized_inj h
      obtain ⟨rfl, hword⟩ := mode_inj hbody
      exact ⟨rfl, append_cancel_left hword⟩

theorem flatMap_bytes_inj {items items' : List Item}
    (h : items.flatMap Item.bytes = items'.flatMap Item.bytes) : items = items' := by
  have hne : ∀ (item : Item) rest, item.bytes ++ rest ≠ [] := by
    intro item rest hnil
    have hlength := congrArg length hnil
    cases item <;> simp [Item.bytes, sized, beBytes_length] at hlength
  induction items generalizing items' with
  | nil =>
    cases items' with
    | nil => rfl
    | cons item' items' => cases hne _ _ h.symm
  | cons item items ih =>
    cases items' with
    | nil => cases hne _ _ h
    | cons item' items' =>
      obtain ⟨rfl, hrest⟩ := Item.bytes_inj h
      rw [ih hrest]

/-- **The bytes of an object are those of its listing**: they tell everything but the nesting. -/
theorem Object.bytes_eq_iff {object object' : Object} :
    object.bytes = object'.bytes ↔ object.listing = object'.listing := by
  cases object with
  | file mode contents =>
    cases object' with
    | file mode' contents' =>
      simp only [Object.listing, Prod.mk.injEq, Sum.inl.injEq]
      refine ⟨fun h => ?_, fun ⟨hmode, hcontents⟩ => by rw [hmode, hcontents]⟩
      obtain ⟨hmode, hword⟩ := mode_inj h
      have hsized := congrArg (· ++ []) (append_cancel_left hword)
      exact ⟨hmode, (sized_inj hsized).1⟩
    | directory =>
      refine iff_of_false (fun h => ?_) (by simp [Object.listing])
      cases (mode_inj h).2
  | directory mode entries =>
    cases object' with
    | file =>
      refine iff_of_false (fun h => ?_) (by simp [Object.listing])
      cases (mode_inj h).2
    | directory mode' entries' =>
      simp only [Object.listing, Prod.mk.injEq, Sum.inr.injEq, Object.bytes, Entries.bytes_eq]
      refine ⟨fun h => ?_, fun ⟨hmode, hlisting⟩ => by rw [hmode, hlisting]⟩
      obtain ⟨hmode, hword⟩ := mode_inj h
      exact ⟨hmode, flatMap_bytes_inj (append_cancel_left hword)⟩

section Identify

variable {δ : Type} [DecidableEq δ] {sha256 : Bytes → δ}

/-- **What the digest identifies**: two objects have the same digest exactly if they have the same
listing, so it tells them apart exactly if they differ in more than the nesting of their
entries. And a recovery keeps a target exactly if it has the listing of the journal's object. -/
theorem digest_identifies_listing (hsha : Function.Injective sha256) (object object' : Object) :
    (objectDigest sha256 object = objectDigest sha256 object' ↔
      object.listing = object'.listing) ∧
    ∀ backup, recoverInterruptedSwap sha256
        ⟨some (objectDigest sha256 object), some object', backup⟩ =
      .ok ⟨none, if object'.listing = object.listing then some object' else backup, none⟩ := by
  have hdigest : ∀ object object' : Object,
      objectDigest sha256 object = objectDigest sha256 object' ↔
        object.listing = object'.listing :=
    fun _ _ => ⟨fun heq => Object.bytes_eq_iff.mp (hsha heq),
      fun heq => congrArg sha256 (Object.bytes_eq_iff.mpr heq)⟩
  refine ⟨hdigest object object', fun backup => ?_⟩
  simp only [recoverInterruptedSwap, ne_eq, hdigest object' object]
  split <;> simp_all

end Identify

def nameA : Sized := ⟨word "a", by decide⟩

def nameB : Sized := ⟨word "b", by decide⟩

/-- An empty directory `a`, and beside it a file `b` with these contents. -/
def beside (contents : Sized) : Object :=
  .directory 0o755 ⟨.directory nameA 0o755 .nil (.file nameB 0o644 contents .nil), rfl⟩

/-- A file `b` inside the directory `a`. -/
def inside (contents : Sized) : Object :=
  .directory 0o755 ⟨.directory nameA 0o755 (.file nameB 0o644 contents .nil) .nil, rfl⟩

/-- Another file in the place of the one that was installed. -/
theorem digest_identifies_listing_changed :
    recoverInterruptedSwap id ⟨some (objectDigest id (beside nameA)), some (beside nameB),
      some (beside nameA)⟩ = .ok ⟨none, some (beside nameA), none⟩ := by
  have h := @digest_identifies_listing Bytes _ id Function.injective_id (beside nameA) (beside nameB)
  rw [h.2, if_neg (by decide)]

/-- A file beside an empty directory has the digest of the file inside it, and is kept in its
place. -/
theorem digest_confuses_nesting :
    beside nameA ≠ inside nameA ∧ objectDigest id (beside nameA) = objectDigest id (inside nameA) ∧
      recoverInterruptedSwap id ⟨some (objectDigest id (inside nameA)), some (beside nameA), none⟩ =
        .ok ⟨none, some (beside nameA), none⟩ := by
  decide

end GtaClaw.Updater
