import GtaClaw.Pairing.Steps

/-!
# The three copies of the grants

The file, the map and the directory agree except while a commit is under way. The
argument follows the commit: `loadPairings` reads the file back entry by entry,
`reconcilePairingDirectory` takes a directory that agrees with the old map to one
that agrees with the new, and writing the new map to the file makes it the file's.

What a device holds is traced to the journal. `Entitled` says where a scope can come
from: from the file as it was opened or from an approved request for this device and
role, and since then the device was neither removed nor given another role.
-/

namespace GtaClaw.Pairing

open Lib DeviceDirectory List AList
open Gateway (Role OperatorScope)

/-! ## Scopes -/

theorem mem_sortUnstable {scope : OperatorScope} {scopes : List OperatorScope} :
    scope ∈ sortUnstable scopes ↔ scope ∈ scopes := mem_insertionSort _

theorem mem_canonical {scope : OperatorScope} {scopes : List OperatorScope} :
    scope ∈ canonical scopes ↔ scope ∈ scopes := mem_dedup.trans mem_sortUnstable

theorem sortUnstable_sortUnstable (scopes : List OperatorScope) :
    sortUnstable (sortUnstable scopes) = sortUnstable scopes := by
  exact (pairwise_insertionSort _ scopes).insertionSort_eq

theorem grant_sorted (pairing : StoredPairing) : pairing.sorted.grant = pairing.grant := by
  unfold StoredPairing.grant StoredPairing.sorted Grant.new canonical
  rw [sortUnstable_sortUnstable]

/-! ## The file -/

/-- Every pairing stands under its device. -/
def Keyed (pairings : Table String StoredPairing) : Prop :=
  ∀ deviceId pairing, pairings.lookup deviceId = some pairing → pairing.deviceId = deviceId

variable {pairings : Table String StoredPairing} {devices : DeviceDirectory}
  {previous current loaded : Table String StoredPairing}

theorem Keyed.insert (h : Keyed pairings)
    (pairing : StoredPairing) : Keyed (pairings.insert pairing.deviceId pairing) := by
  intro deviceId other hlookup
  rcases Table.lookup_insert_eq_some hlookup with ⟨rfl, rfl⟩ | ⟨-, hold⟩
  · rfl
  · exact h deviceId other hold

theorem Keyed.erase (h : Keyed pairings) (deviceId : String) : Keyed (pairings.erase deviceId) :=
  fun other pairing hlookup => h other pairing (Table.lookup_erase_eq_some hlookup).2

theorem foldlM_loadPairing {entries : List StoredPairing} :
    ∀ {start loaded : Table String StoredPairing}, Keyed start →
      entries.foldlM loadPairing start = .ok loaded →
      Keyed loaded ∧ ∀ deviceId, loaded.lookup deviceId =
        (start.lookup deviceId).or
          ((entries.find? fun pairing => pairing.deviceId == deviceId).map .sorted) := by
  induction entries with
  | nil =>
    intro start loaded hkeyed h
    cases h
    exact ⟨hkeyed, fun deviceId => by simp⟩
  | cons pairing entries ih =>
    intro start loaded hkeyed h
    rw [foldlM_cons] at h
    cases hfirst : loadPairing start pairing with rw [hfirst] at h
    | error error => cases h
    | ok next =>
      unfold loadPairing at hfirst
      cases hvalid : validatePairing pairing with rw [hvalid] at hfirst
      | error error => cases hfirst
      | ok _ =>
      split_ifs at hfirst with hnone
      · cases hfirst
      cases hfirst
      have hnext : Keyed (start.insert pairing.deviceId pairing.sorted) :=
        hkeyed.insert pairing.sorted
      obtain ⟨hloaded, hlookup⟩ := ih hnext h
      refine ⟨hloaded, fun deviceId => ?_⟩
      rw [hlookup deviceId]
      by_cases hdevice : pairing.deviceId = deviceId
      · subst hdevice
        have hnone : start.lookup pairing.deviceId = none := by simpa using hnone
        rw [lookup_insert, hnone, find?_cons_of_pos (by simp)]
        rfl
      · rw [lookup_insert_ne (Ne.symm hdevice),
          find?_cons_of_neg (by simpa using hdevice)]

theorem loadPairings_ok {document : PairingDocument}
    (h : loadPairings (.ok document) = .ok loaded) :
    Keyed loaded ∧ ∀ deviceId, loaded.lookup deviceId = (document.entry deviceId).map .sorted := by
  change (if document.schemaVersion != pairingSchemaVersion then _ else
    if document.pairings.length > maxPairings then _ else _) = _ at h
  split at h
  · cases h
  split at h
  · cases h
  have hempty : Keyed (∅ : Table String StoredPairing) := fun _ _ hlookup => by cases hlookup
  obtain ⟨hkeyed, hlookup⟩ := foldlM_loadPairing hempty h
  refine ⟨hkeyed, fun deviceId => ?_⟩
  rw [hlookup deviceId]
  rfl

theorem readFile_ok {rt : Runtime} {failure : Option String}
    (h : loadPairings (rt.readFile failure) = .ok loaded) :
    Keyed loaded ∧ ∀ deviceId, loaded.lookup deviceId = (rt.file.entry deviceId).map .sorted := by
  cases failure with
  | none => exact loadPairings_ok h
  | some error => cases h

theorem entry_documentOf (h : Keyed pairings) (deviceId : String) :
    (Runtime.documentOf pairings).entry deviceId = pairings.lookup deviceId := by
  change pairings.values.find? _ = _
  cases hfound : pairings.values.find? fun pairing => pairing.deviceId == deviceId with
  | some pairing =>
    obtain ⟨key, hlookup⟩ := Table.mem_values.mp (mem_of_find?_eq_some hfound)
    have hdevice : pairing.deviceId = deviceId := by simpa using find?_some hfound
    rw [← hdevice, h key pairing hlookup]
    exact hlookup.symm
  | none =>
    cases hlookup : pairings.lookup deviceId with
    | none => rfl
    | some pairing =>
      have hmem := Table.mem_values.mpr ⟨deviceId, hlookup⟩
      have hnot := find?_eq_none.mp hfound pairing hmem
      rw [h deviceId pairing hlookup] at hnot
      simp at hnot

/-! ## The directory -/

def applyCalls (calls : List DirectoryCall) (devices : DeviceDirectory) : DeviceDirectory :=
  calls.foldl (fun devices call => call.on devices) devices

/-- The directory grants what the pairings say. -/
def Grants (devices : DeviceDirectory) (pairings : Table String StoredPairing) : Prop :=
  ∀ deviceId, devices.currentGrant deviceId = (pairings.lookup deviceId).map StoredPairing.grant

theorem currentGrant_pair (devices : DeviceDirectory) (deviceId other : String) (grant : Grant) :
    (devices.pair deviceId grant).currentGrant other
      = if other = deviceId then some grant else devices.currentGrant other := by
  split
  · rename_i heq
    rw [heq]
    exact lookup_insert _
  · rename_i hne
    exact lookup_insert_ne hne

theorem currentGrant_revoke (devices : DeviceDirectory) (deviceId other : String) :
    (devices.revoke deviceId).currentGrant other
      = if other = deviceId then none else devices.currentGrant other := by
  unfold currentGrant revoke
  split
  · split
    · rename_i heq
      rw [heq]
      exact lookup_erase _ _
    · rename_i hne
      exact lookup_erase_ne hne
  · rename_i habsent
    split
    · rename_i heq
      rw [heq]
      simpa using habsent
    · rfl

theorem currentGrant_revokes (other : String) : ∀ (ids : List String) (devices : DeviceDirectory),
    (applyCalls (ids.map .revoke) devices).currentGrant other
      = if other ∈ ids then none else devices.currentGrant other
  | [], _ => by simp [applyCalls]
  | id :: ids, devices => by
    change (applyCalls (ids.map .revoke) (devices.revoke id)).currentGrant other = _
    rw [currentGrant_revokes other ids, currentGrant_revoke]
    by_cases hid : other = id
    · simp [hid]
    · simp [hid]

theorem currentGrant_pairs (other : String) :
    ∀ (entries : List (Sigma fun _ : String => StoredPairing)) (devices : DeviceDirectory),
      entries.NodupKeys →
      (applyCalls (entries.map fun e => .pair e.1 e.2.grant) devices).currentGrant other
        = ((entries.dlookup other).map StoredPairing.grant).or (devices.currentGrant other)
  | [], devices, _ => by simp [applyCalls]
  | ⟨id, pairing⟩ :: entries, devices, hnodup => by
    obtain ⟨hnot, hrest⟩ := nodupKeys_cons.mp hnodup
    change (applyCalls (entries.map fun e => .pair e.1 e.2.grant)
      (devices.pair id pairing.grant)).currentGrant other = _
    rw [currentGrant_pairs other entries _ hrest, currentGrant_pair]
    by_cases hid : other = id
    · subst hid
      rw [dlookup_eq_none.mpr hnot]
      simp
    · rw [dlookup_cons_ne entries (⟨id, pairing⟩ : Sigma fun _ => StoredPairing) hid, if_neg hid]

theorem applyCalls_append (calls calls' : List DirectoryCall) (devices : DeviceDirectory) :
    applyCalls (calls ++ calls') devices = applyCalls calls' (applyCalls calls devices) :=
  foldl_append

theorem lookup_changed (previous current : Table String StoredPairing)
    {preferredDevice : Option String} {deviceId : String}
    (hdevice : preferredDevice ≠ some deviceId) :
    (current.retain fun deviceId pairing => preferredDevice != some deviceId
        && previous.lookup deviceId != some pairing).lookup deviceId
      = if current.lookup deviceId = previous.lookup deviceId then none
        else current.lookup deviceId := by
  refine Option.ext fun pairing => ?_
  rw [Table.lookup_retain_eq_some]
  constructor
  · rintro ⟨hcurrent, hpasses⟩
    have hprevious : previous.lookup deviceId ≠ some pairing := by
      intro heq
      simp [heq] at hpasses
    have hne : current.lookup deviceId ≠ previous.lookup deviceId := fun heq =>
      hprevious (heq.symm.trans hcurrent)
    rw [if_neg hne]
    exact hcurrent
  · intro h
    split at h
    · cases h
    rename_i hne
    rw [h] at hne
    exact ⟨h, by simp [hdevice, Ne.symm hne]⟩

/-- **Reconciling** takes a directory that grants the old pairings to one that grants the new
ones, at every device that it is not told to skip. -/
theorem currentGrant_reconcile (h : Grants devices previous)
    (preferredDevice : Option String) {deviceId : String}
    (hdevice : preferredDevice ≠ some deviceId) :
    (applyCalls (reconcilePairingDirectory previous current preferredDevice) devices).currentGrant
      deviceId = (current.lookup deviceId).map StoredPairing.grant := by
  unfold reconcilePairingDirectory
  rw [applyCalls_append, currentGrant_pairs deviceId _ _ (nodupKeys _), currentGrant_revokes,
    h deviceId]
  change (((current.retain _).lookup deviceId).map _).or _ = _
  rw [lookup_changed previous current hdevice]
  cases hcurrent : current.lookup deviceId with
  | none =>
    -- the device is revoked, or it had no grant to begin with
    cases hprevious : previous.lookup deviceId with
    | none => simp
    | some pairing =>
      have hmem : deviceId ∈ previous.keys := lookup_isSome.mp (by rw [hprevious]; rfl)
      simp [hmem, hcurrent]
  | some pairing =>
    have hkept : deviceId ∉ previous.keys.filter fun deviceId =>
        !(current.lookup deviceId).isSome := by simp [hcurrent]
    split_ifs with hsame
    · rw [← hsame]
      rfl
    · rfl

theorem grants_reconcile (h : Grants devices previous) (current : Table String StoredPairing) :
    Grants (applyCalls (reconcilePairingDirectory previous current none) devices) current :=
  fun _ => currentGrant_reconcile h none (by simp)

theorem grants_reconcile_preferred (h : Grants devices previous)
    {pairing : StoredPairing} (hcurrent : current.lookup pairing.deviceId = some pairing) :
    Grants (applyCalls (reconcilePairingDirectory previous current (some pairing.deviceId)
      ++ [.pair pairing.deviceId pairing.grant]) devices) current := by
  intro deviceId
  rw [applyCalls_append]
  change (pair _ _ _).currentGrant deviceId = _
  rw [currentGrant_pair]
  split
  · rename_i heq
    rw [heq, hcurrent]
    rfl
  · rename_i hne
    exact currentGrant_reconcile h _ fun heq => hne (Option.some.inj heq).symm

/-! ## Entitlement -/

/-- The event neither removes the device nor gives it another role. -/
def Event.Keeps (deviceId : String) (role : Role) : Event → Prop
  | .removed id => id ≠ deviceId
  | .approved request => request.deviceId = deviceId → request.role = role
  | .recorded _ | .rejected _ | .expired _ => True

/-- Where a scope that a device holds in a role can come from. -/
inductive Entitled (document : PairingDocument) (log : List Event) (deviceId : String) (role : Role)
    (scope : OperatorScope) : Prop
  | opened {pairing : StoredPairing} (hentry : document.entry deviceId = some pairing)
      (hrole : pairing.role = role) (hscope : scope ∈ pairing.scopes)
      (hkeeps : ∀ e ∈ log, e.Keeps deviceId role)
  | approved {before since : List Event} {request : StoredPendingPairing}
      (hlog : log = before ++ .approved request :: since) (hdevice : request.deviceId = deviceId)
      (hrole : request.role = role) (hscope : scope ∈ request.scopes)
      (hkeeps : ∀ e ∈ since, e.Keeps deviceId role)

variable {document : PairingDocument} {log events : List Event} {deviceId : String} {role : Role}
  {scope : OperatorScope}

theorem Entitled.append (h : Entitled document log deviceId role scope)
    (hevents : ∀ e ∈ events, e.Keeps deviceId role) :
    Entitled document (log ++ events) deviceId role scope := by
  cases h with
  | opened hentry hrole hscope hkeeps =>
    exact .opened hentry hrole hscope (forall_mem_append.mpr ⟨hkeeps, hevents⟩)
  | @approved before since request hlog hdevice hrole hscope hkeeps =>
    have hsplit : log ++ events = before ++ .approved request :: (since ++ events) := by
      rw [hlog, append_assoc, cons_append]
    exact .approved hsplit hdevice hrole hscope (forall_mem_append.mpr ⟨hkeeps, hevents⟩)

theorem Entitled.request {request : StoredPendingPairing} (hscope : scope ∈ request.scopes) :
    Entitled document (log ++ [.approved request]) request.deviceId request.role scope :=
  have hsplit : log ++ [.approved request] = log ++ .approved request :: [] := rfl
  .approved hsplit rfl rfl hscope (by simp)

end GtaClaw.Pairing
