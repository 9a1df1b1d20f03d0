import GtaClaw.Pairing.Steps

/-!
# Requests are approved at most once

A request is open as long as nothing in the journal has ended it: it was not
approved, rejected or dropped for its age, and its device was not removed since it
was recorded. Every queued request is open, and so is the request that an approval
has set aside until the moment the file is written. That write is when a request
counts as approved, so an approval always finds its request open.

The same invariant carries the bound on queued and approving requests: an approval
that fails puts its request back into the room that the request has kept.
-/

namespace GtaClaw.Pairing

open Lib Table List

def Event.Closes (requestId : RequestId) : Event → Prop
  | .approved request => request.requestId = requestId
  | .rejected id => id = requestId
  | .expired id => id = requestId
  | .recorded _ | .removed _ => False

/-- The same request, but for the time it was last asked for. -/
structure Same (request request' : StoredPendingPairing) : Prop where
  requestId : request.requestId = request'.requestId
  deviceId : request.deviceId = request'.deviceId
  role : request.role = request'.role
  scopes : request.scopes = request'.scopes

/-- Recorded, and not ended since. -/
structure Open (log : List Event) (request : StoredPendingPairing) : Prop where
  unclosed : ∀ e ∈ log, ¬ e.Closes request.requestId
  recorded : ∃ before first since, log = before ++ .recorded first :: since ∧ Same first request ∧
    .removed request.deviceId ∉ since

variable {log events : List Event} {rt rt' : Runtime} {request request' : StoredPendingPairing}
  {sequence sequence' : Nat}

theorem Open.congr (h : Open log request) (hsame : Same request request') : Open log request' := by
  obtain ⟨before, first, since, hlog, hfirst, hdevice⟩ := h.recorded
  refine ⟨fun e he hcloses => h.unclosed e he (hsame.requestId ▸ hcloses),
    before, first, since, hlog, ?_, hsame.deviceId ▸ hdevice⟩
  exact ⟨hfirst.requestId.trans hsame.requestId, hfirst.deviceId.trans hsame.deviceId,
    hfirst.role.trans hsame.role, hfirst.scopes.trans hsame.scopes⟩

/-- What happens to other requests and devices leaves a request open. -/
theorem Open.append (h : Open log request) (hcloses : ∀ e ∈ events, ¬ e.Closes request.requestId)
    (hremoved : .removed request.deviceId ∉ events) : Open (log ++ events) request := by
  obtain ⟨before, first, since, rfl, hfirst, hdevice⟩ := h.recorded
  refine ⟨forall_mem_append.mpr ⟨h.unclosed, hcloses⟩, before, first, since ++ events, ?_, hfirst,
    not_mem_append hdevice hremoved⟩
  rw [append_assoc, cons_append]

/-- The request that an approval has set aside and not yet carried out. -/
def Mutation.reservation : Mutation → Option StoredPendingPairing
  | .reserved _ pending | .loaded _ (.approval _ pending _) | .restoring pending _ => some pending
  | .loaded _ (.removal _ _) | .loaded _ .opening | .publishing .. | .completing .. | .dropping .. =>
    none

def Runtime.reservation (rt : Runtime) : Option StoredPendingPairing :=
  rt.mutation.bind Mutation.reservation

/-- Numbered before, and open. -/
structure Waiting (log : List Event) (sequence : Nat) (request : StoredPendingPairing) : Prop where
  numbered : request.requestId.sequence < sequence
  «open» : Open log request

theorem Waiting.append (h : Waiting log sequence request)
    (hle : sequence ≤ sequence') (hcloses : ∀ e ∈ events, ¬ e.Closes request.requestId)
    (hremoved : .removed request.deviceId ∉ events) : Waiting (log ++ events) sequence' request :=
  ⟨h.numbered.trans_le hle, h.open.append hcloses hremoved⟩

/-- What the journal says of the past. -/
structure Past (log : List Event) (sequence : Nat) : Prop where
  numbered : ∀ e ∈ log, ∀ id, e.Closes id → id.sequence < sequence
  approved : ∀ before request since, log = before ++ .approved request :: since →
    Open before request

section

variable (h : Past log sequence) (hle : sequence ≤ sequence')
  (hnumbered : ∀ e ∈ events, ∀ id, e.Closes id → id.sequence < sequence')
include h hle hnumbered

theorem Past.append
    (happroved : ∀ before request since, events = before ++ .approved request :: since →
      Open (log ++ before) request) : Past (log ++ events) sequence' := by
  refine ⟨fun e he id hcloses => ?_, fun before request since hsplit => ?_⟩
  · rcases mem_append.mp he with hold | hnew
    · exact (h.numbered e hold id hcloses).trans_le hle
    · exact hnumbered e hnew id hcloses
  · rcases append_eq_append_iff.mp hsplit with ⟨mid, rfl, hevents⟩ | ⟨mid, rfl, hmid⟩
    · exact happroved mid request since hevents
    cases mid with
    | nil =>
      have hopen := happroved [] request since hmid.symm
      rw [append_nil, append_nil] at hopen
      exact hopen
    | cons e mid =>
      obtain ⟨rfl, -⟩ := cons.inj hmid
      exact h.approved before request mid rfl

theorem Past.extend
    (hnone : ∀ request, .approved request ∉ events) : Past (log ++ events) sequence' := by
  refine h.append hle hnumbered fun before request since hsplit => ?_
  refine absurd ?_ (hnone request)
  rw [hsplit]
  exact mem_append_right _ (mem_cons_self ..)

end

/-- **The invariant of the requests.** -/
structure Requests (log : List Event) (rt : Runtime) : Prop where
  room : rt.queued.entries.length + rt.approving.entries.length ≤ maxPendingPairings
  queued : ∀ id request, rt.queued.lookup id = some request →
    request.requestId = id ∧ Waiting log rt.sequence request
  reserved : ∀ request, rt.reservation = some request →
    rt.approving.lookup request.requestId = some request ∧
    rt.queued.lookup request.requestId = none ∧ Waiting log rt.sequence request
  past : Past log rt.sequence

namespace Requests

/-- A move that touches no request, though it may use up numbers. -/
theorem still (h : Requests log rt) (hqueued : rt'.queued = rt.queued)
    (happroving : rt'.approving = rt.approving) (hle : rt.sequence ≤ rt'.sequence)
    (hreserved : ∀ request, rt'.reservation = some request → rt.reservation = some request) :
    Requests (log ++ []) rt' := by
  refine ⟨?_, fun id request hlookup => ?_, fun request hr => ?_, ?_⟩
  · rw [hqueued, happroving]
    exact h.room
  · rw [hqueued] at hlookup
    obtain ⟨hid, hwaiting⟩ := h.queued id request hlookup
    exact ⟨hid, hwaiting.append hle (forall_mem_nil _) not_mem_nil⟩
  · obtain ⟨hold, hout, hwaiting⟩ := h.reserved request (hreserved request hr)
    rw [hqueued, happroving]
    exact ⟨hold, hout, hwaiting.append hle (forall_mem_nil _) not_mem_nil⟩
  · exact h.past.extend hle (forall_mem_nil _) (fun _ => not_mem_nil)

theorem mem_expirations {nowMs : Nat} {e : Event} (he : e ∈ rt.expirations nowMs) :
    ∃ id pending, e = .expired id ∧ rt.queued.lookup id = some pending ∧
      Runtime.isFresh nowMs pending = false := by
  obtain ⟨id, hid, rfl⟩ := mem_map.mp he
  obtain ⟨pending, hlookup⟩ := Option.isSome_iff_exists.mp (AList.lookup_isSome.mpr hid)
  obtain ⟨hqueued, hstale⟩ := lookup_retain_eq_some.mp hlookup
  exact ⟨id, pending, rfl, hqueued, by simpa using hstale⟩

section

variable (h : Requests log rt)
include h

theorem prune (nowMs : Nat) : Requests (log ++ rt.expirations nowMs) (rt.prunePending nowMs) := by
  have hremoved : ∀ deviceId, .removed deviceId ∉ rt.expirations nowMs := by
    intro deviceId hmem
    obtain ⟨id, pending, heq, -⟩ := mem_expirations hmem
    cases heq
  refine ⟨?_, fun id request hlookup => ?_, fun request hr => ?_, ?_⟩
  · have hle := length_retain_le rt.queued fun _ pending => Runtime.isFresh nowMs pending
    have hroom := h.room
    change (rt.queued.retain _).entries.length + rt.approving.entries.length ≤ _
    omega
  · obtain ⟨hold, hfresh⟩ := lookup_retain_eq_some.mp hlookup
    obtain ⟨rfl, hwaiting⟩ := h.queued id request hold
    refine ⟨rfl, hwaiting.append le_rfl (fun e he hcloses => ?_) (hremoved _)⟩
    -- what was dropped under this id is another request than the one that stayed
    obtain ⟨id', pending, rfl, hdropped, hstale⟩ := mem_expirations he
    cases hcloses
    rw [hold] at hdropped
    cases hdropped
    rw [hfresh] at hstale
    cases hstale
  · obtain ⟨happroving, hqueued, hwaiting⟩ := h.reserved request hr
    refine ⟨happroving, ?_, hwaiting.append le_rfl (fun e he hcloses => ?_) (hremoved _)⟩
    · cases hlookup : (rt.prunePending nowMs).queued.lookup request.requestId with
      | none => rfl
      | some other =>
        have hold := (lookup_retain_eq_some.mp hlookup).1
        rw [hqueued] at hold
        cases hold
    · obtain ⟨id', pending, rfl, hdropped, -⟩ := mem_expirations he
      cases hcloses
      rw [hqueued] at hdropped
      cases hdropped
  · refine h.past.extend le_rfl (fun e he id hcloses => ?_) (fun request hmem => ?_)
    · obtain ⟨id', pending, rfl, hdropped, -⟩ := mem_expirations he
      cases hcloses
      obtain ⟨hid, hwaiting⟩ := h.queued id pending hdropped
      rw [← hid]
      exact hwaiting.numbered
    · obtain ⟨id, pending, heq, -⟩ := mem_expirations hmem
      cases heq

theorem refresh {existing : StoredPendingPairing} (nowMs : Nat)
    (hexisting : existing ∈ rt.queued.values) :
    Requests (log ++ []) { rt with
      queued := rt.queued.insert existing.requestId { existing with refreshedAtMs := nowMs } } := by
  rw [append_nil]
  obtain ⟨id, hold⟩ := mem_values.mp hexisting
  obtain ⟨rfl, hwaiting⟩ := h.queued id existing hold
  have hsame : Same existing { existing with refreshedAtMs := nowMs } := ⟨rfl, rfl, rfl, rfl⟩
  refine ⟨?_, fun id request hlookup => ?_, fun request hr => ?_, h.past⟩
  · rw [length_insert hold]
    exact h.room
  · rcases lookup_insert_eq_some hlookup with ⟨rfl, rfl⟩ | ⟨-, hother⟩
    · exact ⟨rfl, hwaiting.numbered, hwaiting.open.congr hsame⟩
    · exact h.queued id request hother
  · obtain ⟨happroving, hqueued, hreserved⟩ := h.reserved request hr
    have hne : request.requestId ≠ existing.requestId := by
      intro heq
      rw [heq, hold] at hqueued
      cases hqueued
    refine ⟨happroving, ?_, hreserved⟩
    rw [AList.lookup_insert_ne hne]
    exact hqueued

theorem record (hid : request.requestId.sequence = rt.sequence)
    (hroom : rt.queued.entries.length + rt.approving.entries.length < maxPendingPairings) :
    Requests (log ++ [.recorded request]) { rt with
      queued := rt.queued.insert request.requestId request
      sequence := rt.sequence + 1 } := by
  have hcloses : ∀ e ∈ [Event.recorded request], ∀ id, ¬ e.Closes id :=
    forall_mem_singleton.mpr fun _ => id
  have hremoved : ∀ deviceId, .removed deviceId ∉ [Event.recorded request] := by simp
  refine ⟨?_, fun id other hlookup => ?_, fun other hr => ?_, ?_⟩
  · have hle := length_insert_le rt.queued request.requestId request
    change (rt.queued.insert _ _).entries.length + rt.approving.entries.length ≤ _
    omega
  · rcases lookup_insert_eq_some hlookup with ⟨rfl, rfl⟩ | ⟨-, hother⟩
    · refine ⟨rfl, by change request.requestId.sequence < rt.sequence + 1; omega, fun e he hcl => ?_,
        log, request, [], rfl, ⟨rfl, rfl, rfl, rfl⟩, by simp⟩
      -- the number is new, so nothing before was about it
      rcases mem_append.mp he with hold | hnew
      · have hlt := h.past.numbered e hold _ hcl
        omega
      · exact hcloses e hnew _ hcl
    · obtain ⟨hother, hwaiting⟩ := h.queued id other hother
      exact ⟨hother, hwaiting.append (Nat.le_succ _) (fun e he => hcloses e he _) (hremoved _)⟩
  · obtain ⟨happroving, hqueued, hwaiting⟩ := h.reserved other hr
    have hne : other.requestId ≠ request.requestId := by
      intro heq
      have hlt := hwaiting.numbered
      rw [heq] at hlt
      omega
    refine ⟨happroving, ?_,
      hwaiting.append (Nat.le_succ _) (fun e he => hcloses e he _) (hremoved _)⟩
    rw [AList.lookup_insert_ne hne]
    exact hqueued
  · exact h.past.extend (Nat.le_succ _) (fun e he id hcl => absurd hcl (hcloses e he id)) (by simp)

theorem reject {id : RequestId} (hlookup : rt.queued.lookup id = some request) :
    Requests (log ++ [.rejected id]) { rt with queued := rt.queued.erase id } := by
  have hlength := length_erase hlookup
  obtain ⟨rfl, hwaiting⟩ := h.queued id request hlookup
  refine ⟨?_, fun id other hother => ?_, fun other hr => ?_, ?_⟩
  · have hroom := h.room
    change (rt.queued.erase _).entries.length + rt.approving.entries.length ≤ _
    omega
  · obtain ⟨hne, hold⟩ := lookup_erase_eq_some hother
    obtain ⟨rfl, hwaiting'⟩ := h.queued id other hold
    exact ⟨rfl, hwaiting'.append le_rfl (forall_mem_singleton.mpr (Ne.symm hne)) (by simp)⟩
  · obtain ⟨happroving, hqueued, hother⟩ := h.reserved other hr
    have hne : other.requestId ≠ request.requestId := by
      intro heq
      rw [heq, hlookup] at hqueued
      cases hqueued
    refine ⟨happroving, ?_, hother.append le_rfl
      (forall_mem_singleton.mpr (Ne.symm hne)) (by simp)⟩
    rw [AList.lookup_erase_ne hne]
    exact hqueued
  · refine h.past.extend le_rfl (forall_mem_singleton.mpr fun id hcl => ?_) (by simp)
    cases hcl
    exact hwaiting.numbered

theorem reserve (node : Bool) {id : RequestId} (hlookup : rt.queued.lookup id = some request) :
    Requests (log ++ []) { rt with
      queued := rt.queued.erase id
      approving := rt.approving.insert id request
      mutation := some (.reserved node request) } := by
  rw [append_nil]
  have hlength := length_erase hlookup
  obtain ⟨rfl, hwaiting⟩ := h.queued id request hlookup
  refine ⟨?_, fun id other hother => ?_, fun other hr => ?_, h.past⟩
  · have hle := length_insert_le rt.approving request.requestId request
    have hroom := h.room
    change (rt.queued.erase _).entries.length + (rt.approving.insert _ _).entries.length ≤ _
    omega
  · exact h.queued id other (lookup_erase_eq_some hother).2
  · cases hr
    exact ⟨AList.lookup_insert _, AList.lookup_erase _ _, hwaiting⟩

/-- The file is written: the request is approved, and no longer set aside. -/
theorem approve (hreserved : rt.reservation = some request)
    (hqueued : rt'.queued = rt.queued) (happroving : rt'.approving = rt.approving)
    (hsequence : rt'.sequence = rt.sequence) (hnone : rt'.reservation = none) :
    Requests (log ++ [.approved request]) rt' := by
  obtain ⟨-, hout, hwaiting⟩ := h.reserved request hreserved
  refine ⟨?_, fun id other hother => ?_, fun other hr => ?_, ?_⟩
  · rw [hqueued, happroving]
    exact h.room
  · rw [hqueued] at hother
    obtain ⟨rfl, hother'⟩ := h.queued id other hother
    refine ⟨rfl, hother'.append (by omega)
      (forall_mem_singleton.mpr fun hcl => ?_) (by simp)⟩
    have heq : request.requestId = other.requestId := hcl
    rw [heq, hother] at hout
    cases hout
  · rw [hnone] at hr
    cases hr
  · rw [hsequence]
    refine h.past.append le_rfl (forall_mem_singleton.mpr fun id hcl => ?_)
      fun before other since hsplit => ?_
    · cases hcl
      exact hwaiting.numbered
    · cases before with
      | nil =>
        cases hsplit
        rw [append_nil]
        exact hwaiting.open
      | cons e before => simp at hsplit

theorem complete (node : Bool) (requestId : RequestId)
    (pairing : StoredPairing) (generation warnings : Nat) :
    Requests (log ++ []) (rt.completeApproval node requestId pairing generation warnings).2 := by
  rw [append_nil]
  refine ⟨?_, fun id other hother => ?_, fun other hr => ?_, h.past⟩
  · have hle := length_retain_le rt.queued fun _ pending =>
      pending.deviceId != pairing.deviceId || pending.role != pairing.role
        || !pending.scopes.all pairing.scopes.contains
    have herase : (rt.approving.erase requestId).entries.length ≤ rt.approving.entries.length :=
      (kerase_sublist _ _).length_le
    have hroom := h.room
    change (rt.queued.retain _).entries.length + (rt.approving.erase requestId).entries.length ≤ _
    omega
  · exact h.queued id other (lookup_retain_eq_some.mp hother).1
  · cases hr

theorem drop (node : Bool) (deviceId : String) (warnings : Nat) :
    Requests (log ++ [.removed deviceId]) (rt.dropPending node deviceId warnings).2 := by
  refine ⟨?_, fun id other hother => ?_, fun other hr => ?_, ?_⟩
  · have hle := length_retain_le rt.queued fun _ request => request.deviceId != deviceId
    have hle' := length_retain_le rt.approving fun _ request => request.deviceId != deviceId
    have hroom := h.room
    change (rt.queued.retain _).entries.length + (rt.approving.retain _).entries.length ≤ _
    omega
  · obtain ⟨hold, hkept⟩ := lookup_retain_eq_some.mp hother
    obtain ⟨rfl, hwaiting⟩ := h.queued id other hold
    refine ⟨rfl, hwaiting.append le_rfl (forall_mem_singleton.mpr id) fun hmem => ?_⟩
    cases mem_singleton.mp hmem
    simp at hkept
  · cases hr
  · exact h.past.extend le_rfl (forall_mem_singleton.mpr fun _ => False.elim) (by simp)

/-- An approval failed: the request goes back into the queue. -/
theorem restore (hreserved : rt.reservation = some request) :
    Requests (log ++ []) { rt with
      approving := rt.approving.erase request.requestId
      queued := rt.queued.insert request.requestId request
      mutation := none } := by
  rw [append_nil]
  obtain ⟨happroving, -, hwaiting⟩ := h.reserved request hreserved
  refine ⟨?_, fun id other hother => ?_, fun other hr => ?_, h.past⟩
  · have hlength := length_erase happroving
    have hle := length_insert_le rt.queued request.requestId request
    have hroom := h.room
    change (rt.queued.insert _ _).entries.length + (rt.approving.erase _).entries.length ≤ _
    omega
  · rcases lookup_insert_eq_some hother with ⟨rfl, rfl⟩ | ⟨-, hold⟩
    · exact ⟨rfl, hwaiting⟩
    · exact h.queued id other hold
  · cases hr

/-- An approval failed, and its request is too old by now. -/
theorem expire (hreserved : rt.reservation = some request) :
    Requests (log ++ [.expired request.requestId]) { rt with
      approving := rt.approving.erase request.requestId
      mutation := none } := by
  obtain ⟨happroving, hout, hwaiting⟩ := h.reserved request hreserved
  refine ⟨?_, fun id other hother => ?_, fun other hr => ?_, ?_⟩
  · have hlength := length_erase happroving
    have hroom := h.room
    change rt.queued.entries.length + (rt.approving.erase _).entries.length ≤ _
    omega
  · obtain ⟨rfl, hother'⟩ := h.queued id other hother
    refine ⟨rfl, hother'.append le_rfl (forall_mem_singleton.mpr fun hcl => ?_) (by simp)⟩
    have heq : request.requestId = other.requestId := hcl
    rw [← heq, hout] at hother
    cases hother
  · cases hr
  · refine h.past.extend le_rfl (forall_mem_singleton.mpr fun id hcl => ?_) (by simp)
    cases hcl
    exact hwaiting.numbered

end

theorem reservation_of_mutation {mutation : Mutation} (h : rt.mutation = some mutation) :
    rt.reservation = mutation.reservation := by
  unfold Runtime.reservation
  rw [h]
  rfl

theorem moves (h : Requests log rt) (hmove : Moves rt events rt') : Requests (log ++ events) rt' := by
  cases hmove with
  | elsewhere => exact h.still rfl rfl (Nat.le_succ _) fun _ => id
  | prune nowMs => exact h.prune nowMs
  | refresh nowMs hexisting => exact h.refresh nowMs hexisting
  | record hid hroom => exact h.record hid hroom
  | reject hlookup => exact h.reject hlookup
  | reserve node _ hlookup => exact h.reserve node hlookup
  | @loadApproval node pending failure hmutation =>
    refine h.still rfl rfl le_rfl fun request hr => ?_
    rw [reservation_of_mutation hmutation]
    unfold Runtime.loadApproval at hr
    split at hr
    · exact hr
    split at hr
    · exact hr
    · exact hr
  | loadRemoval hidle _ | loadOpening hidle _ | commitRemoval _ _ | failRemoval _ | call _ =>
    exact h.still rfl rfl le_rfl fun _ hr => by cases hr
  | commitApproval warnings hmutation =>
    exact h.approve (reservation_of_mutation hmutation) rfl rfl rfl rfl
  | failApproval error hmutation =>
    refine h.still rfl rfl le_rfl fun request hr => ?_
    rw [reservation_of_mutation hmutation]
    exact hr
  | commitOpening _ => exact h.still rfl rfl le_rfl fun _ hr => by cases hr
  | @settle _ _ _ purpose _ => cases purpose <;> exact h.still rfl rfl le_rfl fun _ hr => by cases hr
  | complete _ => exact h.complete _ _ _ _ _
  | drop _ => exact h.drop _ _ _
  | restore hmutation => exact h.restore (reservation_of_mutation hmutation)
  | expire hmutation => exact h.expire (reservation_of_mutation hmutation)

end Requests

end GtaClaw.Pairing
