import GtaClaw.Pairing.Answers
import GtaClaw.Pairing.Grants

/-!
# The pairing store under interleaving

The grants are carried through a commit by `Stage`, which says for every point that
the holder of the gate can be at what the file, the map and the directory have to do
with each other. Nobody else writes to any of the three, so the other steps only have
to leave the stage alone.
-/

namespace GtaClaw.Pairing

open Lib List
open Gateway (Role OperatorScope)

variable (rt : Runtime)

/-- What the file grants a device. -/
def Runtime.fileGrant (deviceId : String) : Option Grant :=
  (rt.file.entry deviceId).map StoredPairing.grant

/-- What the map of pairings grants a device. -/
def Runtime.heldGrant (deviceId : String) : Option Grant :=
  (rt.pairings.lookup deviceId).map StoredPairing.grant

/-- The three copies are the same. -/
def Agree : Prop :=
  ∀ deviceId, rt.fileGrant deviceId = rt.heldGrant deviceId ∧
    rt.devices.currentGrant deviceId = rt.heldGrant deviceId

variable (document : PairingDocument)

/-- The new pairings are those of the file, except at one device. -/
def ExceptAt (candidate : Table String StoredPairing) (deviceId : String) : Prop :=
  ∀ other, other ≠ deviceId → candidate.lookup other = (document.entry other).map .sorted

/-- What an approval adds: the scopes of its request to those that the device has in the role. -/
structure Extends (document : PairingDocument) (pending : StoredPendingPairing)
    (pairing : StoredPairing) : Prop where
  deviceId : pairing.deviceId = pending.deviceId
  role : pairing.role = pending.role
  scopes : ∀ scope ∈ pairing.scopes, scope ∈ pending.scopes ∨
    ∃ existing, document.entry pending.deviceId = some existing ∧ existing.role = pending.role ∧
      scope ∈ existing.scopes

/-- What the new pairings have to do with the file they were read from. -/
def Prepared (candidate : Table String StoredPairing) :
    Purpose → Prop
  | .approval _ pending pairing =>
    candidate.lookup pending.deviceId = some pairing ∧ Extends document pending pairing ∧
      ExceptAt document candidate pending.deviceId
  | .removal _ deviceId => candidate.lookup deviceId = none ∧ ExceptAt document candidate deviceId
  | .opening => ∀ deviceId, candidate.lookup deviceId = (document.entry deviceId).map .sorted

/-- What a written file says of the purpose. -/
def Purpose.Written : Purpose → Prop
  | .removal _ deviceId => document.entry deviceId = none
  | .approval .. | .opening => True

/-- Where the holder of the gate is, the copies stand as follows. -/
def Stage : Option Mutation → Prop
  | none | some (.reserved ..) | some (.restoring ..) | some (.completing ..) => Agree rt
  | some (.loaded candidate purpose) =>
    Agree rt ∧ Keyed candidate ∧ Prepared rt.file candidate purpose
  | some (.publishing calls _ candidate _ purpose) =>
    (∀ deviceId, rt.fileGrant deviceId = (candidate.lookup deviceId).map StoredPairing.grant) ∧
      Grants (applyCalls calls rt.devices) candidate ∧ purpose.Written rt.file
  | some (.dropping _ deviceId _) => Agree rt ∧ rt.file.entry deviceId = none

/-- **The invariant of the grants.** -/
structure Held (document : PairingDocument) (log : List Event) (rt : Runtime) : Prop where
  stage : Stage rt rt.mutation
  entitled : ∀ deviceId pairing, rt.file.entry deviceId = some pairing →
    ∀ scope ∈ pairing.scopes, Entitled document log deviceId pairing.role scope

variable {document : PairingDocument} {log events : List Event} {rt rt' : Runtime}
  {candidate : Table String StoredPairing} {pending : StoredPendingPairing} {deviceId : String}
  {node : Bool} {mutation : Option Mutation}

theorem Stage.frame (h : Stage rt mutation)
    (hfile : rt'.file = rt.file) (hpairings : rt'.pairings = rt.pairings)
    (hdevices : rt'.devices = rt.devices) : Stage rt' mutation := by
  cases rt
  cases rt'
  cases hfile
  cases hpairings
  cases hdevices
  match mutation with
  | none | some (.reserved ..) | some (.loaded ..) | some (.publishing ..) | some (.dropping ..) =>
    exact h
  | some (.completing ..) | some (.restoring ..) => exact h

/-! ## Reading the file -/

theorem map_grant_sorted (entry : Option StoredPairing) :
    (entry.map .sorted).map StoredPairing.grant = entry.map StoredPairing.grant := by
  cases entry with
  | none => rfl
  | some pairing => exact congrArg some (grant_sorted pairing)

theorem approvedPairing_extends {loaded : Table String StoredPairing}
    (hloaded : ∀ deviceId, loaded.lookup deviceId = (rt.file.entry deviceId).map .sorted) :
    Extends rt.file pending (Runtime.approvedPairing loaded pending) := by
  unfold Runtime.approvedPairing
  split
  · rename_i existing hexisting
    rw [hloaded] at hexisting
    obtain ⟨entry, hentry, rfl⟩ := Option.map_eq_some_iff.mp hexisting
    split_ifs with hrole
    · refine ⟨rfl, rfl, fun scope hscope => ?_⟩
      rcases mem_append.mp (mem_canonical.mp hscope) with hnew | hold
      · exact .inl hnew
      · exact .inr ⟨entry, hentry, hrole, mem_sortUnstable.mp hold⟩
    · exact ⟨rfl, rfl, fun _ hscope => .inl hscope⟩
  · exact ⟨rfl, rfl, fun _ hscope => .inl hscope⟩

theorem stage_loadApproval (hagree : Agree rt) (node : Bool) (failure : Option String) :
    Stage rt (some (rt.loadApproval node pending failure)) := by
  unfold Runtime.loadApproval
  split
  · exact hagree
  rename_i loaded hload
  split
  · exact hagree
  obtain ⟨hkeyed, hloaded⟩ := readFile_ok hload
  have hextends : Extends rt.file pending (Runtime.approvedPairing loaded pending) :=
    approvedPairing_extends hloaded
  refine ⟨hagree, ?_, AList.lookup_insert _, hextends, fun other hne => ?_⟩
  · rw [← hextends.deviceId]
    exact hkeyed.insert _
  · rw [AList.lookup_insert_ne hne]
    exact hloaded other

/-! ## Every move -/

namespace Held

theorem still (h : Held document log rt) (hfile : rt'.file = rt.file)
    (hstage : Stage rt' rt'.mutation)
    (hkeeps : ∀ e ∈ events, ∀ deviceId role, e.Keeps deviceId role) :
    Held document (log ++ events) rt' := by
  refine ⟨hstage, fun deviceId pairing hentry scope hscope => ?_⟩
  rw [hfile] at hentry
  exact (h.entitled deviceId pairing hentry scope hscope).append fun e he => hkeeps e he _ _

theorem bystander (h : Held document log rt) (queued approving : Table RequestId StoredPendingPairing)
    (sequence : Nat) (hkeeps : ∀ e ∈ events, ∀ deviceId role, e.Keeps deviceId role) :
    Held document (log ++ events)
      { rt with queued := queued, approving := approving, sequence := sequence } := by
  exact h.still rfl (h.stage.frame rfl rfl rfl) hkeeps

theorem keeps_nil : ∀ e ∈ ([] : List Event), ∀ deviceId role, e.Keeps deviceId role :=
  (by simp)

theorem at_stage (h : Held document log rt)
    (hmutation : rt.mutation = mutation) : Stage rt mutation := by
  have hstage := h.stage
  rwa [hmutation] at hstage

section

variable (h : Held document log rt)
include h

/-- What another device holds in the written file it held in the file before. -/
theorem entry_written (hkeyed : Keyed candidate) {deviceId other : String}
    {pairing : StoredPairing} (hexcept : ExceptAt rt.file candidate deviceId) (hne : other ≠ deviceId)
    (hentry : (Runtime.documentOf candidate).entry other = some pairing) {scope : OperatorScope}
    (hscope : scope ∈ pairing.scopes) : Entitled document log other pairing.role scope := by
  rw [entry_documentOf hkeyed, hexcept other hne] at hentry
  obtain ⟨old, hold, rfl⟩ := Option.map_eq_some_iff.mp hentry
  exact h.entitled other old hold scope (mem_sortUnstable.mp hscope)

theorem commitApproval {pairing : StoredPairing} (warnings : Nat)
    (hmutation : rt.mutation = some (.loaded candidate (.approval node pending pairing))) :
    Held document (log ++ [.approved pending]) { rt with
      file := Runtime.documentOf candidate
      mutation := some (.publishing
        (reconcilePairingDirectory rt.pairings candidate (some pairing.deviceId)
          ++ [.pair pairing.deviceId pairing.grant]) 0 candidate warnings
        (.approval node pending pairing)) } := by
  obtain ⟨hagree, hkeyed, hlookup, hextends, hexcept⟩ := h.at_stage hmutation
  refine ⟨⟨fun deviceId => ?_, ?_, trivial⟩, fun deviceId other hentry scope hscope => ?_⟩
  · exact congrArg _ (entry_documentOf hkeyed deviceId)
  · exact grants_reconcile_preferred (fun deviceId => (hagree deviceId).2)
      (hextends.deviceId.symm ▸ hlookup)
  · by_cases hdevice : deviceId = pending.deviceId
    · subst hdevice
      rw [entry_documentOf hkeyed, hlookup] at hentry
      cases hentry
      rw [hextends.role]
      rcases hextends.scopes scope hscope with hnew | ⟨existing, hold, hrole, hexisting⟩
      · exact .request hnew
      have hentitled := h.entitled _ existing hold scope hexisting
      rw [hrole] at hentitled
      refine hentitled.append fun e he => ?_
      cases mem_singleton.mp he
      exact fun _ => rfl
    · refine (h.entry_written hkeyed hexcept hdevice hentry hscope).append fun e he => ?_
      cases mem_singleton.mp he
      exact fun heq => absurd heq.symm hdevice

theorem commitRemoval (warnings : Nat)
    (hmutation : rt.mutation = some (.loaded candidate (.removal node deviceId))) :
    Held document (log ++ []) { rt with
      file := Runtime.documentOf candidate
      mutation := some (.publishing (reconcilePairingDirectory rt.pairings candidate none) 0
        candidate warnings (.removal node deviceId)) } := by
  obtain ⟨hagree, hkeyed, hnone, hexcept⟩ := h.at_stage hmutation
  refine ⟨⟨fun other => ?_, ?_, ?_⟩, fun other pairing hentry scope hscope => ?_⟩
  · exact congrArg _ (entry_documentOf hkeyed other)
  · exact grants_reconcile (fun other => (hagree other).2) candidate
  · exact (entry_documentOf hkeyed deviceId).trans hnone
  · have hne : other ≠ deviceId := by
      rintro rfl
      rw [entry_documentOf hkeyed, hnone] at hentry
      cases hentry
    rw [append_nil]
    exact h.entry_written hkeyed hexcept hne hentry hscope

theorem commitOpening (hmutation : rt.mutation = some (.loaded candidate .opening)) :
    Held document (log ++ []) { rt with
      mutation := some (.publishing (reconcilePairingDirectory rt.pairings candidate none) 0
        candidate 0 .opening) } := by
  obtain ⟨hagree, -, hloaded⟩ := h.at_stage hmutation
  refine h.still rfl ⟨fun deviceId => ?_, ?_, trivial⟩ keeps_nil
  · rw [hloaded deviceId, map_grant_sorted]
    rfl
  · exact grants_reconcile (fun deviceId => (hagree deviceId).2) candidate

theorem settle {generation warnings : Nat} {purpose : Purpose}
    (hmutation : rt.mutation = some (.publishing [] generation candidate warnings purpose)) :
    Held document (log ++ []) (rt.settle generation candidate warnings purpose).2 := by
  obtain ⟨hfile, hdevices, hwritten⟩ := h.at_stage hmutation
  have hagree : Agree { rt with pairings := candidate } := fun deviceId =>
    ⟨hfile deviceId, hdevices deviceId⟩
  cases purpose with
  | approval node pending pairing | opening => exact h.still rfl hagree keeps_nil
  | removal node deviceId => exact h.still rfl ⟨hagree, hwritten⟩ keeps_nil

theorem drop {warnings : Nat} (hmutation : rt.mutation = some (.dropping node deviceId warnings)) :
    Held document (log ++ [.removed deviceId]) (rt.dropPending node deviceId warnings).2 := by
  obtain ⟨hagree, hnone⟩ := h.at_stage hmutation
  refine ⟨hagree, fun other pairing hentry scope hscope => ?_⟩
  have hentry : rt.file.entry other = some pairing := hentry
  refine (h.entitled other pairing hentry scope hscope).append fun e he => ?_
  cases mem_singleton.mp he
  rintro rfl
  rw [hnone] at hentry
  cases hentry

theorem moves (hmove : Moves rt events rt') : Held document (log ++ events) rt' := by
  cases hmove with
  | elsewhere | refresh nowMs _ => exact h.bystander _ _ _ keeps_nil
  | prune nowMs =>
    refine h.bystander _ _ _ fun e he deviceId role => ?_
    obtain ⟨id, pending, rfl, -⟩ := Requests.mem_expirations he
    trivial
  | record _ _ | reject _ =>
    refine h.bystander _ _ _ fun e he deviceId role => ?_
    cases mem_singleton.mp he
    trivial
  | reserve node hidle _ =>
    have hagree : Agree rt := h.at_stage hidle
    exact h.still rfl hagree keeps_nil
  | loadApproval failure hmutation =>
    have hagree : Agree rt := h.at_stage hmutation
    exact h.still rfl ((stage_loadApproval hagree _ failure).frame rfl rfl rfl) keeps_nil
  | loadRemoval hidle hload =>
    have hagree : Agree rt := h.at_stage hidle
    refine h.still rfl ⟨hagree, ?_⟩ keeps_nil
    unfold Runtime.loadRemoval at hload
    split at hload
    · cases hload
    rename_i loaded hread
    obtain ⟨hkeyed, hloaded⟩ := readFile_ok hread
    split at hload
    · cases hload
    split at hload
    · cases hload
    cases hload
    refine ⟨hkeyed.erase _, AList.lookup_erase _ _, fun other hne => ?_⟩
    rw [AList.lookup_erase_ne hne]
    exact hloaded other
  | loadOpening hidle hload =>
    have hagree : Agree rt := h.at_stage hidle
    exact h.still rfl ⟨hagree, readFile_ok hload⟩ keeps_nil
  | commitApproval warnings hmutation => exact h.commitApproval warnings hmutation
  | failApproval error hmutation | failRemoval hmutation =>
    have hagree : Agree rt := (h.at_stage hmutation).1
    exact h.still rfl hagree keeps_nil
  | commitRemoval warnings hmutation => exact h.commitRemoval warnings hmutation
  | commitOpening hmutation => exact h.commitOpening hmutation
  | call hmutation =>
    obtain ⟨hfile, hdevices, hwritten⟩ := h.at_stage hmutation
    exact h.still rfl ⟨hfile, hdevices, hwritten⟩ keeps_nil
  | settle hmutation => exact h.settle hmutation
  | complete hmutation | restore hmutation =>
    have hagree : Agree rt := h.at_stage hmutation
    exact h.still rfl hagree keeps_nil
  | drop hmutation => exact h.drop hmutation
  | expire hmutation =>
    have hagree : Agree rt := h.at_stage hmutation
    refine h.still rfl hagree fun e he deviceId role => ?_
    cases mem_singleton.mp he
    trivial

end

end Held

/-! ## Every run -/

/-- An approval, a removal or an opening has written the file and not yet replaced the map. -/
def Runtime.publishing : Bool :=
  match rt.mutation with
  | some (.publishing ..) => true
  | _ => false

theorem Held.agree (h : Held document log rt) (hsettled : rt.publishing = false) : Agree rt := by
  have hstage := h.stage
  unfold Runtime.publishing at hsettled
  match hmutation : rt.mutation with
  | none | some (.reserved ..) | some (.completing ..) | some (.restoring ..) =>
    rw [hmutation] at hstage
    exact hstage
  | some (.loaded ..) | some (.dropping ..) =>
    rw [hmutation] at hstage
    exact hstage.1
  | some (.publishing ..) =>
    rw [hmutation] at hsettled
    cases hsettled

end GtaClaw.Pairing
