import GtaClaw.Secret.Transaction

/-!
# What is stored under which key

The proofs look at a store as a function from keys to values. There are four kinds of
keys: the lock, the manifests, the shadows, and the live keys outside the reserved
namespace. A write to one leaves what is stored under all others.
-/

namespace GtaClaw.Secret

open Lib Function AList

variable {V : Type} {key : CredentialKey} {order : List String → List String} {s : Store V}

abbrev View (V : Type) := CredentialKey → Option V

def Store.view (s : Store V) : View V := fun key => s.lookup key

theorem view_insert (s : Store V) (key : CredentialKey) (v : V) :
    Store.view (s.insert key v) = update (Store.view s) key (some v) := by
  funext k
  by_cases hk : k = key
  · rw [hk, update_self]
    exact lookup_insert s
  · rw [update_of_ne hk]
    exact lookup_insert_ne hk

theorem view_erase (s : Store V) (key : CredentialKey) :
    Store.view (s.erase key) = update (Store.view s) key none := by
  funext k
  by_cases hk : k = key
  · rw [hk, update_self]
    exact lookup_erase key s
  · rw [update_of_ne hk]
    exact lookup_erase_ne hk

theorem exec_insertIfAbsent_free (h : s.view key = none) (v : V) :
    s.exec order (.insertIfAbsent key v) = (true, s.insert key v) := by
  have hfree : ¬ (s.lookup key).isSome = true := by
    rw [show s.lookup key = none from h]
    exact Bool.false_ne_true
  exact if_neg hfree

theorem exec_insertIfAbsent_held {held : V} (h : s.view key = some held) (v : V) :
    s.exec order (.insertIfAbsent key v) = (false, s) := by
  have hbusy : (s.lookup key).isSome = true := by
    rw [show s.lookup key = some held from h]
    rfl
  exact if_pos hbusy

theorem mem_accounts (hlisted : ∀ xs, (order xs).Perm xs) {service account : String} :
    account ∈ (s.exec order (.accounts service)).1 ↔
      ∃ key : CredentialKey, key.service = service ∧ key.account = account ∧
        (s.view key).isSome = true := by
  refine (hlisted _).mem_iff.trans ?_
  simp only [List.mem_map, List.mem_filter, decide_eq_true_eq, Store.view, lookup_isSome,
    mem_keys]
  exact exists_congr fun key => by tauto

/-! ## The kinds of keys -/

/-- A key outside the reserved namespace. -/
def CredentialKey.Live (key : CredentialKey) : Prop := key.service ≠ transactionService

instance (key : CredentialKey) : Decidable key.Live := inferInstanceAs (Decidable (_ ≠ _))

theorem CredentialKey.ext {a b : CredentialKey} (hservice : a.service = b.service)
    (haccount : a.account = b.account) : a = b := by
  cases a
  cases b
  cases hservice
  cases haccount
  rfl

section Kinds

variable {key : CredentialKey} (h : key.Live)
include h

theorem CredentialKey.Live.ne_lockAt : key ≠ lockAt := fun heq => h (heq ▸ rfl)

theorem CredentialKey.Live.ne_manifestAt (id : TransactionId) : key ≠ manifestAt id :=
  fun heq => h (heq ▸ rfl)

theorem CredentialKey.Live.ne_shadowAt (id : TransactionId) (slot : UInt32) : key ≠ shadowAt id slot :=
  fun heq => h (heq ▸ rfl)

end Kinds

/-- Nothing is stored in the reserved namespace. -/
def Clean (s : Store V) : Prop := ∀ key : CredentialKey, ¬ key.Live → s.lookup key = none

theorem matchesKey_iff {entry : ManifestEntry} :
    entry.matchesKey key = true ↔ entry.liveKey = .ok key := by
  unfold ManifestEntry.matchesKey ManifestEntry.liveKey
  rw [Bool.and_eq_true, decide_eq_true_eq, decide_eq_true_eq]
  constructor
  · rintro ⟨hservice, haccount⟩
    rw [hservice, haccount]
    exact key.new_self
  · intro hnew
    unfold CredentialKey.new at hnew
    split at hnew
    · cases hnew
      exact ⟨rfl, rfl⟩
    · cases hnew

theorem holds_iff {manifest : Manifest} :
    manifest.holds key = true ↔ ∃ entry ∈ manifest.entries, entry.liveKey = .ok key := by
  unfold Manifest.holds
  rw [List.any_eq_true]
  exact exists_congr fun entry => and_congr_right fun _ => matchesKey_iff

theorem liveKey_mk (key : CredentialKey) (slot : UInt32) (existed : Bool) :
    ManifestEntry.liveKey ⟨key.service, key.account, slot, existed⟩ = .ok key := key.new_self

theorem holds_push {m : Manifest} {e : ManifestEntry} {key k : CredentialKey}
    (he : e.liveKey = .ok key) : (m.push e).holds k = true ↔ m.holds k = true ∨ k = key := by
  simp [holds_iff, Manifest.push, or_and_right, exists_or, he, eq_comm (a := k)]

theorem slotOf_eq_some {n : Nat} {slot : UInt32} (h : slotOf n = some slot) : slot.toNat = n := by
  unfold slotOf at h
  split at h
  · rename_i hlt
    cases h
    exact UInt32.toNat_ofNat_of_lt hlt
  · cases h

/-! ## The manifest of a transaction -/

/-- The manifest as it is read. -/
def manifestIn (config : Config V) (f : View V) (id : TransactionId) :
    Option (Except SecretStoreError Manifest) :=
  (f (manifestAt id)).map (readManifest config)

section Manifest

variable {config : Config V} {f : View V} {id id' : TransactionId} {key : CredentialKey}
  {v : Option V}

theorem manifestIn_update_of_ne (h : manifestAt id ≠ key) :
    manifestIn config (update f key v) id = manifestIn config f id := by
  unfold manifestIn
  rw [update_of_ne h]

theorem manifestIn_update_live (h : key.Live) :
    manifestIn config (update f key v) id = manifestIn config f id :=
  manifestIn_update_of_ne (h.ne_manifestAt id).symm

theorem manifestIn_update_self :
    manifestIn config (update f (manifestAt id) v) id = v.map (readManifest config) := by
  unfold manifestIn
  rw [update_self]

theorem manifestIn_eq_none : manifestIn config f id = none ↔ f (manifestAt id) = none := by
  exact Option.map_eq_none_iff

theorem Config.Lawful.stored (hlaw : config.Lawful order)
    {m : Manifest} (hversion : m.version = manifestVersion) :
    ∃ raw, config.encode m = some raw ∧ readManifest config raw = .ok m := by
  obtain ⟨raw, hencode, hdecode⟩ := hlaw.manifest m
  refine ⟨raw, hencode, ?_⟩
  unfold readManifest
  rw [hdecode]
  exact if_neg (not_not.mpr hversion)

theorem version_of_readManifest {raw : V} {m : Manifest} (h : readManifest config raw = .ok m) :
    m.version = manifestVersion := by
  unfold readManifest at h
  split at h
  · cases h
  split at h
  · cases h
  rename_i hversion
  cases h
  exact not_not.mp hversion

end Manifest

/-! ## A store for examples -/

/-- Secrets that hold what they stand for. -/
abbrev plainSecrets : Config (String ⊕ Manifest) where
  backend := "memory"
  encode m := some (.inr m)
  decode
    | .inl _ => none
    | .inr m => some m
  secret := .inl

theorem plainSecrets_lawful : plainSecrets.Lawful id where
  manifest m := ⟨.inr m, rfl, rfl⟩
  secret := Sum.inl_injective
  listed accounts := List.Perm.refl accounts

def firstTransaction : TransactionId := ⟨"0123456789abcdef0123456789abcdef", by decide +kernel⟩

def apiKey : CredentialKey := ⟨"gta-claw", "openai", by decide +kernel⟩

def apiKeyStore : Store (String ⊕ Manifest) := (∅ : Store (String ⊕ Manifest)).insert apiKey (.inl "old")

theorem apiKeyStore_clean : Clean apiKeyStore := by
  intro key hkey
  have hne : key ≠ apiKey := by
    rintro rfl
    exact hkey (by decide +kernel)
  exact (lookup_insert_ne hne).trans (lookup_empty key)

end GtaClaw.Secret
