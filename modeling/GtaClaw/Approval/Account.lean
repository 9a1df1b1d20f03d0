import GtaClaw.Approval.Broker

/-!
# The account of an approval

Each approval has one unit to account for. While its request waits, the unit is
the pending entry; it passes to whoever takes the entry away, which is the request
itself, a decision or a sweep, and it ends as one dismissal at the port. A sweep
that still has to withdraw the approval counts as if it had.

`Position` says for every stage of a request where the unit can be. The rest of
the invariant ties the entries, the decisions and the sweeps to their requests by
the identifier, which no two requests share.
-/

namespace GtaClaw.Approval

open Lib GtaClaw.Runtime Channel
open List hiding after

/-! ## Identifiers -/

theorem trimmed_approval (n : Nat) : trimmed ("approval-" ++ toString n) = "approval-" ++ toString n := by
  have hlist : ("approval-" ++ toString n).toList = "approval-".toList ++ Nat.toDigits 10 n := by
    rw [String.toList_append, ← Nat.toList_repr]
    rfl
  have hlast : ∀ c ∈ ("approval-".toList ++ Nat.toDigits 10 n).getLast?, isWhitespace c = false := by
    intro c hc
    rw [getLast?_append_of_ne_nil _ Nat.toDigits_ne_nil] at hc
    exact isWhitespace_of_isDigit
      (Nat.isDigit_of_mem_toDigits (by decide) (by decide) (mem_of_mem_getLast? hc))
  unfold trimmed
  rw [hlist, trim_eq_self (by rintro _ ⟨⟩; decide) hlast, ← hlist, String.ofList_toList]

def Mints (n : Nat) (id : ApprovalId) : Prop :=
  Identifier.new "approval id" ("approval-" ++ toString n) = .ok id

theorem Mints.asStr {n : Nat} {id : ApprovalId} (h : Mints n id) :
    id.asStr = "approval-" ++ toString n := by
  rw [Identifier.asStr_of_new h, trimmed_approval]

theorem Mints.inj {m n : Nat} {id : ApprovalId} (hm : Mints m id) (hn : Mints n id) : m = n := by
  have htext : Nat.repr m = Nat.repr n :=
    (String.append_right_inj _).mp (hm.asStr.symm.trans hn.asStr)
  have hdigits : Nat.toDigits 10 m = Nat.toDigits 10 n := by
    rw [← Nat.toList_repr, ← Nat.toList_repr, htext]
  rw [← Nat.ofDigitChars_toDigits (b := 10) (n := m) (by decide) (by decide), hdigits,
    Nat.ofDigitChars_toDigits (by decide) (by decide)]

/-! ## Where the unit is -/

/-- The port is told that the prompt is over. -/
def dismisses (id : ApprovalId) : PortCall → Bool
  | .present _ => false
  | .settle id' => id' = id
  | .withdraw id' _ => id' = id
  | .abandon id' => id' = id

/-- The decision that this call had accepted for the approval. -/
def Resolve.answer (id : ApprovalId) (call : Resolve) : Option ApprovalDecision :=
  match call.stage with
  | .refused _ => none
  | _ => if call.id = id then some call.decision else none

namespace World

variable (w : World) (id : ApprovalId)

def held : Bool := (w.broker.pending.lookup id).isSome

/-- How often a sweep still has to withdraw the approval. -/
def owed : Nat := (w.sweeps.map fun sweep => sweep.drained.count id).sum

def dismissals : Nat := w.port.countP (dismisses id)

def charged : Nat := w.owed id + w.dismissals id

def answers : List ApprovalDecision := w.resolves.filterMap (Resolve.answer id)

end World

/-- The wait ended without a decision; why. -/
def Ended (cancelled revoked : Nat → Bool) (v : Waiter) : Prop :=
  ∃ arm, v.ending = some arm ∧
    match arm with
    | .cancel => cancelled v.cancel = true
    | .revoked => v.authority.any (·.isRevoked revoked) = true
    | .receiver => v.decisionAccepted = false
    | .deadline => True

/-- The unit of a request that has not taken it yet. -/
def Waits (v : Waiter) (held : Bool) (charged : Nat) : Prop :=
  held.toNat + v.decisionAccepted.toNat + charged = 1

/-- What a request has returned. -/
inductive Returned (cancelled revoked : Nat → Bool) (v : Waiter) (charged : Nat)
    (answers : List ApprovalDecision) : Except ApprovalError ApprovalOutcome → Prop where
  | decided {decision} (hanswers : answers = [decision]) (hcharged : charged = 1) :
      Returned cancelled revoked v charged answers (.ok (.decided decision false))
  | withdrawn {reason} (hended : Ended cancelled revoked v) (hcharged : charged = 1) :
      Returned cancelled revoked v charged answers (.ok (.withdrawn reason))
  | failed {e} (hcharged : charged ≤ 1) (hpresented : v.presented = true → charged = 1) :
      Returned cancelled revoked v charged answers (.error (.port e))

/-- Where the unit of an approval is, by the stage of its request. -/
def Position (cancelled revoked : Nat → Bool) (v : Waiter) (held : Bool) (charged : Nat)
    (answers : List ApprovalDecision) : Prop :=
  match v.stage with
  | .unpolled | .recalling | .dating | .minting .. => False
  | .binding | .registering _ =>
    held = false ∧ v.decisionAccepted = false ∧ charged = 0 ∧ v.presented = false ∧
      v.mailbox = .empty
  | .presenting => Waits v held charged ∧ v.presented = false
  | .selecting _ => Waits v held charged
  | .ended => Waits v held charged ∧ Ended cancelled revoked v
  | .retracting => Waits v held charged
  | .dismissing stillPending => held = false ∧ Waits v stillPending charged ∧ Ended cancelled revoked v
  | .abandoning removed => held = false ∧ Waits v removed charged
  | .withdrawing _ => held = false ∧ charged = 1 ∧ Ended cancelled revoked v
  | .settling decision => held = false ∧ charged = 1 ∧ answers = [decision]
  | .returned result => held = false ∧ Returned cancelled revoked v charged answers result
  | .dropped => held = false ∧ charged = 1

/-- The mailbox holds the decision that was accepted, if anything. -/
structure Mail (v : Waiter) (answers : List ApprovalDecision) : Prop where
  answered : answers.length = v.decisionAccepted.toNat
  delivered : ∀ decision, v.mailbox = .delivered decision → answers = [decision]
  disconnected : v.mailbox = .disconnected → v.decisionAccepted = false

def World.Serves (w : World) (i : Nat) (v : Waiter) (request : ApprovalRequest) : Prop :=
  w.waiters[i]? = some v ∧ v.request = some request

theorem World.Serves.inj {w : World} {i : Nat} {v v' : Waiter} {request request' : ApprovalRequest}
    (h : w.Serves i v request) (h' : w.Serves i v' request') : v = v' ∧ request = request' := by
  cases h.1.symm.trans h'.1
  cases h.2.symm.trans h'.2
  exact ⟨rfl, rfl⟩

/-- **The invariant of the broker.** -/
structure Inv (w : World) : Prop where
  position : ∀ i v request, w.Serves i v request →
    Position w.cancelled w.revoked v (w.held request.approvalId) (w.charged request.approvalId)
      (w.answers request.approvalId)
  mail : ∀ i v request, w.Serves i v request → Mail v (w.answers request.approvalId)
  fresh : ∀ (i : Nat) (v : Waiter), w.waiters[i]? = some v → v.request = none →
    v.decisionAccepted = false ∧ v.mailbox = .empty ∧ v.presented = false ∧ v.stage.listens = false
  entry : ∀ id entry, w.broker.pending.lookup id = some entry →
    entry.request.approvalId = id ∧
    ∃ v, w.Serves entry.responder v entry.request ∧ v.mailbox = .empty
  minted : ∀ i v request, w.Serves i v request →
    ∃ n, n ≤ w.broker.nextId ∧ Mints n request.approvalId
  unique : ∀ i v request j v' request', w.Serves i v request → w.Serves j v' request' →
    request.approvalId = request'.approvalId → i = j
  strange : ∀ id, (∀ i v request, w.Serves i v request → request.approvalId ≠ id) →
    w.charged id = 0 ∧ w.answers id = []
  call : ∀ (k : Nat) (call : Resolve), w.resolves[k]? = some call → (∀ e, call.stage ≠ .refused e) →
    ∃ v request, w.Serves call.responder v request ∧ request.approvalId = call.id ∧
      (call.stage = .done → v.stage.listens = true → v.mailbox = .delivered call.decision)

/-! ## Waiters change -/

section Map

variable {w w' : World} {i : Nat} {v : Waiter} {request : ApprovalRequest}
  {g : Nat → Waiter → Waiter} {f : Waiter → Waiter} {u : Waiter}

theorem serves_map (hget : ∀ j : Nat, w'.waiters[j]? = (w.waiters[j]?).map (g j))
    (hrequest : ∀ j u, w.waiters[j]? = some u → (g j u).request = u.request) {j : Nat}
    {r : ApprovalRequest} : w'.Serves j u r ↔ ∃ u₀, w.Serves j u₀ r ∧ g j u₀ = u := by
  unfold World.Serves
  rw [hget, Option.map_eq_some_iff]
  constructor
  · rintro ⟨⟨u₀, hu₀, rfl⟩, hr⟩
    exact ⟨u₀, ⟨hu₀, (hrequest j u₀ hu₀).symm.trans hr⟩, rfl⟩
  · rintro ⟨u₀, ⟨hu₀, hr⟩, rfl⟩
    exact ⟨⟨u₀, hu₀, rfl⟩, (hrequest j u₀ hu₀).trans hr⟩

/-- Waiters are changed where they stand, and keep their requests. -/
theorem Inv.map (h : Inv w) (hget : ∀ j : Nat, w'.waiters[j]? = (w.waiters[j]?).map (g j))
    (hrequest : ∀ j u, w.waiters[j]? = some u → (g j u).request = u.request)
    (hnext : w'.broker.nextId = w.broker.nextId)
    (hposition : ∀ j u r, w.Serves j u r → Position w'.cancelled w'.revoked (g j u)
      (w'.held r.approvalId) (w'.charged r.approvalId) (w'.answers r.approvalId))
    (hmail : ∀ j u r, w.Serves j u r → Mail (g j u) (w'.answers r.approvalId))
    (hfresh : ∀ j u, w.waiters[j]? = some u → u.request = none → g j u = u)
    (hentry : ∀ id entry, w'.broker.pending.lookup id = some entry →
      entry.request.approvalId = id ∧
      ∃ u, w.Serves entry.responder u entry.request ∧ (g entry.responder u).mailbox = .empty)
    (hstrange : ∀ id, (∀ j u r, w.Serves j u r → r.approvalId ≠ id) →
      w'.charged id = 0 ∧ w'.answers id = [])
    (hcall : ∀ (k : Nat) (call : Resolve), w'.resolves[k]? = some call →
      (∀ e, call.stage ≠ .refused e) →
      ∃ u r, w.Serves call.responder u r ∧ r.approvalId = call.id ∧
        (call.stage = .done → (g call.responder u).stage.listens = true →
          (g call.responder u).mailbox = .delivered call.decision)) : Inv w' := by
  have hserves := fun j u r => serves_map (j := j) (u := u) (r := r) hget hrequest
  refine ⟨?_, ?_, ?_, ?_, ?_, ?_, ?_, ?_⟩
  · intro j u r hu
    obtain ⟨u₀, hu₀, rfl⟩ := (hserves j u r).mp hu
    exact hposition j u₀ r hu₀
  · intro j u r hu
    obtain ⟨u₀, hu₀, rfl⟩ := (hserves j u r).mp hu
    exact hmail j u₀ r hu₀
  · intro j u hu hnone
    rw [hget, Option.map_eq_some_iff] at hu
    obtain ⟨u₀, hu₀, rfl⟩ := hu
    rw [hrequest j u₀ hu₀] at hnone
    rw [hfresh j u₀ hu₀ hnone]
    exact h.fresh j u₀ hu₀ hnone
  · intro id entry hlookup
    obtain ⟨hid, u, hu, hempty⟩ := hentry id entry hlookup
    exact ⟨hid, _, (hserves _ _ _).mpr ⟨u, hu, rfl⟩, hempty⟩
  · intro j u r hu
    obtain ⟨u₀, hu₀, -⟩ := (hserves j u r).mp hu
    rw [hnext]
    exact h.minted j u₀ r hu₀
  · intro j u r j' u' r' hu hu'
    obtain ⟨u₀, hu₀, -⟩ := (hserves j u r).mp hu
    obtain ⟨u₁, hu₁, -⟩ := (hserves j' u' r').mp hu'
    exact h.unique _ _ _ _ _ _ hu₀ hu₁
  · intro id hid
    exact hstrange id fun j u r hu => hid j _ r ((hserves _ _ _).mpr ⟨u, hu, rfl⟩)
  · intro k call hk hstage
    obtain ⟨u, r, hu, hid, hdone⟩ := hcall k call hk hstage
    exact ⟨_, r, (hserves _ _ _).mpr ⟨u, hu, rfl⟩, hid, hdone⟩

def changeAt (n : Nat) (f : Waiter → Waiter) (j : Nat) (u : Waiter) : Waiter :=
  if n = j then f u else u

theorem changeAt_self {n : Nat} : changeAt n f n u = f u := if_pos rfl

theorem changeAt_ne {n j : Nat} (h : n ≠ j) : changeAt n f j u = u := if_neg h

theorem getElem?_modify_waiters (waiters : List Waiter) (n : Nat) (f : Waiter → Waiter) (j : Nat) :
    (waiters.modify n f)[j]? = (waiters[j]?).map (changeAt n f j) :=
  getElem?_modify _ _ _ _

end Map

section Put

variable {w : World} {i : Nat} {v v' : Waiter} {request : ApprovalRequest} {broker : BrokerState}
  {calls : List PortCall} {r : ApprovalRequest}

theorem serves_put {j : Nat} {u : Waiter} (h : (w.put i v' broker calls).Serves j u r) :
    (j = i ∧ u = v') ∨ (j ≠ i ∧ w.Serves j u r) := by
  rcases getElem?_set_some h.1 with ⟨rfl, rfl⟩ | ⟨hne, hold⟩
  · exact .inl ⟨rfl, rfl⟩
  · exact .inr ⟨hne, hold, h.2⟩

theorem serves_put_self (hv : w.waiters[i]? = some v) (hreq : v'.request = some request) :
    (w.put i v' broker calls).Serves i v' request := by
  refine ⟨?_, hreq⟩
  obtain ⟨hlt, -⟩ := List.getElem?_eq_some_iff.mp hv
  exact getElem?_set_self hlt

theorem serves_put_ne {j : Nat} {u : Waiter} (hne : j ≠ i)
    (h : w.Serves j u r) : (w.put i v' broker calls).Serves j u r :=
  ⟨(getElem?_set_ne hne.symm).trans h.1, h.2⟩

theorem charged_put (id : ApprovalId) :
    (w.put i v' broker calls).charged id = w.charged id + calls.countP (dismisses id) := by
  unfold World.charged World.dismissals World.put
  rw [countP_append]
  exact (Nat.add_assoc _ _ _).symm

theorem mem_answers {k : Nat} {call : Resolve} (hcall : w.resolves[k]? = some call)
    (hstage : ∀ e, call.stage ≠ .refused e) : call.decision ∈ w.answers call.id := by
  have hanswer : call.answer call.id = some call.decision := by
    unfold Resolve.answer
    split
    · rename_i e heq
      exact absurd heq (hstage e)
    · exact if_pos rfl
  exact mem_filterMap.mpr ⟨call, mem_of_getElem? hcall, hanswer⟩

/-- **One waiter changes**, and with it only what concerns its own approval. -/
theorem Inv.change {w' : World} {f : Waiter → Waiter} {resolves : List Resolve}
    {port : List PortCall} (h : Inv w) (hv : w.Serves i v request)
    (hw : w' = { w with waiters := w.waiters.modify i f, broker, resolves, port })
    (hreq : (f v).request = v.request) (hnext : broker.nextId = w.broker.nextId)
    (hother : ∀ id, id ≠ request.approvalId →
      broker.pending.lookup id = w.broker.pending.lookup id ∧ w'.charged id = w.charged id
        ∧ w'.answers id = w.answers id)
    (hposition : Position w.cancelled w.revoked (f v) (w'.held request.approvalId)
      (w'.charged request.approvalId) (w'.answers request.approvalId))
    (hmail : Mail (f v) (w'.answers request.approvalId))
    (hentry : ∀ entry, broker.pending.lookup request.approvalId = some entry →
      entry.request = request ∧ entry.responder = i ∧ (f v).mailbox = .empty)
    (hcall : ∀ (k : Nat) (call : Resolve), resolves[k]? = some call →
      (∀ e, call.stage ≠ .refused e) →
      (w.resolves[k]? = some call ∨ call.id = request.approvalId ∧ call.responder = i)
        ∧ (call.id = request.approvalId → call.stage = .done → (f v).stage.listens = true →
          (f v).mailbox = .delivered call.decision)) : Inv w' := by
  have hne : ∀ {j u r}, i ≠ j → w.Serves j u r → r.approvalId ≠ request.approvalId :=
    fun hj hu heq => hj (h.unique _ _ _ _ _ _ hv hu heq.symm)
  subst hw
  refine h.map (g := changeAt i f) (fun j => getElem?_modify_waiters _ _ _ _) (fun j u hu => ?_)
    hnext ?_ ?_ (fun j u hu hnone => changeAt_ne fun hj => ?_) ?_ ?_ ?_
  · unfold changeAt
    split_ifs with hj
    · subst hj
      cases hu.symm.trans hv.1
      exact hreq
    · rfl
  · intro j u r hu
    by_cases hj : i = j
    · subst hj
      obtain ⟨rfl, rfl⟩ := hu.inj hv
      rw [changeAt_self]
      exact hposition
    · obtain ⟨hlookup, hcharged, hanswers⟩ := hother _ (hne hj hu)
      rw [changeAt_ne hj, hcharged, hanswers, World.held, hlookup]
      exact h.position j u r hu
  · intro j u r hu
    by_cases hj : i = j
    · subst hj
      obtain ⟨rfl, rfl⟩ := hu.inj hv
      rw [changeAt_self]
      exact hmail
    · rw [changeAt_ne hj, (hother _ (hne hj hu)).2.2]
      exact h.mail j u r hu
  · subst hj
    cases hu.symm.trans hv.1
    cases hnone.symm.trans hv.2
  · intro id entry hlookup
    by_cases hid : id = request.approvalId
    · subst hid
      obtain ⟨rfl, rfl, hempty⟩ := hentry entry hlookup
      exact ⟨rfl, v, hv, changeAt_self ▸ hempty⟩
    · obtain ⟨rfl, u, hu, hempty⟩ := h.entry id entry ((hother id hid).1.symm.trans hlookup)
      have hj : i ≠ entry.responder := by
        rintro rfl
        exact hid (congrArg _ (hu.inj hv).2)
      exact ⟨rfl, u, hu, changeAt_ne hj ▸ hempty⟩
  · intro id hid
    obtain ⟨-, hcharged, hanswers⟩ := hother id fun heq => hid i v request hv heq.symm
    rw [hcharged, hanswers]
    exact h.strange id hid
  · intro k call hk hstage
    obtain ⟨hold | ⟨hid, rfl⟩, hdone⟩ := hcall k call hk hstage
    · obtain ⟨u, r, hu, hid, hbefore⟩ := h.call k call hold hstage
      refine ⟨u, r, hu, hid, fun hd hl => ?_⟩
      by_cases hj : i = call.responder
      · subst hj
        obtain ⟨rfl, rfl⟩ := hu.inj hv
        rw [changeAt_self] at hl ⊢
        exact hdone hid.symm hd hl
      · rw [changeAt_ne hj] at hl ⊢
        exact hbefore hd hl
    · exact ⟨v, request, hv, hid.symm, fun hd hl => by
        rw [changeAt_self] at hl ⊢
        exact hdone hid hd hl⟩

/-- **A request moves**: only its own entry and its own prompt are touched. -/
theorem Inv.put (h : Inv w) (hv : w.Serves i v request) (hreq : v'.request = some request)
    (hpending : ∀ id, id ≠ request.approvalId →
      broker.pending.lookup id = w.broker.pending.lookup id)
    (hentry : ∀ entry, broker.pending.lookup request.approvalId = some entry →
      entry.request = request ∧ entry.responder = i ∧ v.mailbox = .empty)
    (hnext : broker.nextId = w.broker.nextId)
    (hcalls : ∀ id, id ≠ request.approvalId → calls.countP (dismisses id) = 0)
    (hposition : Position w.cancelled w.revoked v' (broker.pending.lookup request.approvalId).isSome
      (w.charged request.approvalId + calls.countP (dismisses request.approvalId))
      (w.answers request.approvalId))
    (hmailbox : v'.mailbox = v.mailbox) (haccepted : v'.decisionAccepted = v.decisionAccepted)
    (hlistens : v'.stage.listens = true →
      v.stage.listens = true ∨ w.answers request.approvalId = []) :
    Inv (w.put i v' broker calls) := by
  obtain ⟨hanswered, hdelivered, hdisconnected⟩ := h.mail _ _ _ hv
  refine h.change (f := fun _ => v') hv (by rw [World.put, set_eq_modify]) (hreq.trans hv.2.symm)
    hnext (fun id hid => ⟨hpending id hid, ?_, rfl⟩) ?_ ⟨?_, ?_, ?_⟩ (fun entry hlookup => ?_)
    fun k call hk hstage => ⟨.inl hk, fun hid hd hl => ?_⟩
  · rw [charged_put, hcalls id hid, Nat.add_zero]
  · rw [charged_put]
    exact hposition
  · rw [haccepted]
    exact hanswered
  · rw [hmailbox]
    exact hdelivered
  · rw [hmailbox, haccepted]
    exact hdisconnected
  · obtain ⟨hrequest, hresponder, hempty⟩ := hentry entry hlookup
    exact ⟨hrequest, hresponder, hmailbox.trans hempty⟩
  · obtain ⟨u, r, hu, hr, hdone⟩ := h.call k call hk hstage
    rcases hlistens hl with hold | hnil
    · have hj : call.responder = i := h.unique _ _ _ _ _ _ hu hv (hr.trans hid)
      subst hj
      obtain ⟨rfl, rfl⟩ := hu.inj hv
      exact hmailbox.trans (hdone hd hold)
    · have hmem : call.decision ∈ w.answers call.id := mem_answers hk hstage
      rw [hid, hnil] at hmem
      cases hmem

end Put

end GtaClaw.Approval
