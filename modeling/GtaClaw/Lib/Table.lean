import Mathlib.Data.List.AList

/-!
# Tables

A finite map whose entries can be listed: `AList` with one type of values. Added
here are `retain`, which keeps the entries that pass a test, and for each
operation what an entry of the result says about the table before.
-/

namespace GtaClaw.Lib

abbrev Table (κ β : Type) := AList fun _ : κ => β

namespace Table

variable {κ β : Type} {t : Table κ β} {k k' : κ} {v x : β}

def retain (p : κ → β → Bool) (t : Table κ β) : Table κ β :=
  ⟨t.entries.filter fun e => p e.1 e.2,
    t.nodupKeys.sublist List.filter_sublist⟩

def values (t : Table κ β) : List β := t.entries.map (·.2)

open List

theorem length_keys (t : Table κ β) : t.keys.length = t.entries.length := length_map _

theorem length_retain_le (t : Table κ β) (p : κ → β → Bool) :
    (t.retain p).entries.length ≤ t.entries.length := length_filter_le _ _

variable [DecidableEq κ]

theorem lookup_insert_eq_some (h : (t.insert k v).lookup k' = some x) :
    (k' = k ∧ v = x) ∨ (k' ≠ k ∧ t.lookup k' = some x) := by
  by_cases hk : k' = k
  · subst hk
    rw [AList.lookup_insert] at h
    exact .inl ⟨rfl, Option.some.inj h⟩
  · rw [AList.lookup_insert_ne hk] at h
    exact .inr ⟨hk, h⟩

theorem lookup_erase_eq_some (h : (t.erase k).lookup k' = some x) :
    k' ≠ k ∧ t.lookup k' = some x := by
  by_cases hk : k' = k
  · subst hk
    rw [AList.lookup_erase] at h
    cases h
  · rw [AList.lookup_erase_ne hk] at h
    exact ⟨hk, h⟩

theorem ne_of_lookup (h : t.lookup k = some x) (h' : t.lookup k' = none) : k' ≠ k := by
  rintro rfl
  rw [h] at h'
  cases h'

theorem lookup_retain_eq_some {p : κ → β → Bool} :
    (t.retain p).lookup k = some x ↔ t.lookup k = some x ∧ p k x = true := by
  rw [← Option.mem_def, ← Option.mem_def, AList.mem_lookup_iff, AList.mem_lookup_iff]
  exact mem_filter

theorem lookup_retain (t : Table κ β) (p : κ → β → Bool) (k : κ) :
    (t.retain p).lookup k = (t.lookup k).filter (p k) := by
  ext x
  rw [lookup_retain_eq_some, Option.filter_eq_some_iff]

theorem mem_values : x ∈ t.values ↔ ∃ k, t.lookup k = some x := by
  unfold values
  rw [mem_map]
  constructor
  · rintro ⟨e, he, rfl⟩
    exact ⟨e.1, AList.mem_lookup_iff.mpr he⟩
  · rintro ⟨k, hk⟩
    exact ⟨⟨k, x⟩, AList.mem_lookup_iff.mp hk, rfl⟩

theorem map_values_eq_keys {f : β → κ} (h : ∀ k x, t.lookup k = some x → f x = k) :
    t.values.map f = t.keys := by
  unfold values
  rw [map_map]
  refine map_congr_left fun e he => ?_
  exact h e.1 e.2 (AList.mem_lookup_iff.mpr he)

theorem count_keys (k : κ) : t.keys.count k = (t.lookup k).isSome.toNat := by
  rw [List.Nodup.count t.keys_nodup]
  cases hlookup : t.lookup k with
  | none => exact if_neg (AList.lookup_eq_none.mp hlookup)
  | some x => exact if_pos (AList.lookup_isSome.mp (by rw [hlookup]; rfl))

/-! ## How many entries -/

theorem length_erase (h : t.lookup k = some x) :
    (t.erase k).entries.length + 1 = t.entries.length := by
  have hmem : k ∈ t.keys := AList.lookup_isSome.mp (by rw [h]; rfl)
  rw [← length_keys, ← length_keys, AList.keys_erase, length_erase_of_mem hmem]
  exact Nat.sub_add_cancel (length_pos_of_mem hmem)

theorem length_insert_le (t : Table κ β) (k : κ) (v : β) :
    (t.insert k v).entries.length ≤ t.entries.length + 1 := by
  rw [← length_keys, ← length_keys, AList.keys_insert]
  exact Nat.succ_le_succ length_erase_le

theorem length_insert (h : t.lookup k = some x) :
    (t.insert k v).entries.length = t.entries.length := by
  rw [← length_erase h, ← length_keys, ← length_keys, AList.keys_insert, AList.keys_erase,
    length_cons]

theorem countP_insert (p : β → Bool) (h : t.lookup k = none) :
    (values (t.insert k v)).countP p = t.values.countP p + if p v then 1 else 0 := by
  have hentries : (t.insert k v).entries = ⟨k, v⟩ :: t.entries :=
    AList.entries_insert_of_notMem (AList.lookup_eq_none.mp h)
  unfold values
  rw [hentries, map_cons, countP_cons]

theorem countP_erase (p : β → Bool) (h : t.lookup k = some x) :
    (values (t.erase k)).countP p + (if p x then 1 else 0) = t.values.countP p := by
  have hmem : k ∈ t.keys := AList.lookup_isSome.mp (by rw [h]; rfl)
  obtain ⟨y, before, after, hbefore, heq, herase⟩ := exists_of_kerase hmem
  have hy : t.lookup k = some y := by
    apply AList.mem_lookup_iff.mpr
    rw [heq]
    simp
  have hxy : x = y := by
    rw [h] at hy
    exact Option.some.inj hy
  have hentries : (t.erase k).entries = before ++ after := herase
  unfold values
  rw [hentries, heq]
  simp only [map_append, map_cons, countP_append, countP_cons, hxy]
  omega

def Shrinks (t t' : Table κ β) : Prop := ∀ k x, t'.lookup k = some x → t.lookup k = some x

theorem Shrinks.lookup_eq_none {t' : Table κ β} (h : Shrinks t t') (hnone : t.lookup k = none) :
    t'.lookup k = none := by
  cases hlookup : t'.lookup k with
  | none => rfl
  | some x =>
    rw [h k x hlookup] at hnone
    cases hnone

theorem Shrinks.refl (t : Table κ β) : Shrinks t t := fun _ _ h => h

theorem shrinks_erase (t : Table κ β) (k : κ) : Shrinks t (t.erase k) :=
  fun _ _ h => (lookup_erase_eq_some h).2

end Table

end GtaClaw.Lib
