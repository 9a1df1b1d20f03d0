import GtaClaw.Worker.Effect
import GtaClaw.Lib.Run

/-!
# Fencing: one live session per worker

Four invariants of the runs, each kept by every `Effect`: the tickets are told
apart by their identifiers and are redeemed once, each generation has one holder,
what a session may do is what its ticket was issued with, and the calls of a
session are told apart.

The generations of a worker only grow. So a holder of the live generation got it
from the last operation that opened one, and nobody else can have it.
-/

namespace GtaClaw.Worker

open Lib AdmissionController GenerationLedger Function Option

variable {Payload : Type} {wire : Wire Payload} {c c' : AdmissionController} {op : Op Payload}
  {answer : Answer Payload}

/-! ## Tickets -/

abbrev Event (Payload : Type) := Op Payload × Answer Payload

def issuedTicket : Event Payload → Option TicketId
  | (_, .issued (.returned (.ok issued))) => some issued.ticket.ticketId
  | _ => none

def redeemedTicket (wire : Wire Payload) : Event Payload → Option TicketId
  | (op, .admitted (.returned (.ok _))) => (op.request wire).map (·.ticketId)
  | _ => none

def acceptedCall : Event Payload → Option (SessionId × CallId)
  | (_, .called (.ok accepted)) => some (accepted.session, accepted.callId)
  | _ => none

theorem none_of_not_accepted (wire : Wire Payload) (op : Op Payload)
    (h : answer.accepted = false) : issuedTicket (op, answer) = none ∧
      redeemedTicket wire (op, answer) = none ∧ acceptedCall (op, answer) = none := by
  unfold issuedTicket redeemedTicket acceptedCall
  refine ⟨?_, ?_, ?_⟩
  all_goals
    split
    case h_1 heq =>
      cases heq
      cases h
    case h_2 => rfl

/-- The controller knows every ticket that was issued, and which of them were
redeemed. -/
structure Tickets (wire : Wire Payload) (past : List (Event Payload))
    (c : AdmissionController) : Prop where
  keyed : ∀ id pending, c.pending id = some pending → pending.ticket.ticketId = id
  known : ∀ id, id ∈ past.filterMap issuedTicket ↔ (c.pending id).isSome ∨ id ∈ c.redeemed
  issuedOnce : (past.filterMap issuedTicket).Nodup
  spent : ∀ id ∈ past.filterMap (redeemedTicket wire), id ∈ c.redeemed
  redeemedOnce : (past.filterMap (redeemedTicket wire)).Nodup

variable {past : List (Event Payload)} {e : Event Payload}

/-- An event that issues and redeems nothing, and leaves both tables alone. -/
theorem Tickets.frame (h : Tickets wire past c)
    (hissued : issuedTicket e = none) (hspent : redeemedTicket wire e = none)
    (hpending : c'.pending = c.pending) (hredeemed : c'.redeemed = c.redeemed) :
    Tickets wire (past ++ [e]) c' where
  keyed := by
    rw [hpending]
    exact h.keyed
  known id := by
    rw [mem_filterMap_concat, hissued, hpending, hredeemed, h.known]
    exact or_iff_left (by simp)
  issuedOnce := nodup_filterMap_concat h.issuedOnce (by simp [hissued])
  spent id hid := by
    rw [mem_filterMap_concat, hspent] at hid
    rw [hredeemed]
    exact h.spent id (hid.resolve_right (by simp))
  redeemedOnce := nodup_filterMap_concat h.redeemedOnce (by simp [hspent])

variable {issued : IssuedAdmission}

theorem Tickets.issue {generations : GenerationLedger} (h : Tickets wire past c)
    (hfresh : c.pending issued.ticket.ticketId = none)
    (hunspent : issued.ticket.ticketId ∉ c.redeemed)
    (hissued : issuedTicket e = some issued.ticket.ticketId)
    (hspent : redeemedTicket wire e = none) :
    Tickets wire (past ++ [e]) { c with
      generations
      pending := update c.pending issued.ticket.ticketId (some ⟨issued.ticket, issued.secret⟩) } where
  keyed id pending hp := by
    rcases update_eq_some hp with ⟨rfl, hnew⟩ | ⟨-, hold⟩
    · cases hnew
      rfl
    · exact h.keyed id pending hold
  known id := by
    dsimp only
    rw [mem_filterMap_concat, hissued, h.known, some_inj]
    by_cases heq : id = issued.ticket.ticketId
    · rw [heq, update_self]
      exact iff_of_true (.inr rfl) (.inl rfl)
    · rw [update_of_ne heq]
      exact or_iff_left fun he => heq he.symm
  issuedOnce := by
    refine nodup_filterMap_concat h.issuedOnce fun id hid => ?_
    rw [hissued, some_inj] at hid
    rw [← hid, h.known, hfresh]
    simpa using hunspent
  spent id hid := by
    rw [mem_filterMap_concat, hspent] at hid
    exact h.spent id (hid.resolve_right (by simp))
  redeemedOnce := nodup_filterMap_concat h.redeemedOnce (by simp [hspent])

variable {id : TicketId}

/-- A waiting ticket is spent, by an event that redeems it or nothing. -/
theorem Tickets.spend {sessions : SessionId → Option SessionState} {nextSession : Nat}
    (h : Tickets wire past c) (hid : (c.pending id).isSome) (hissued : issuedTicket e = none)
    (hspent : ∀ id', redeemedTicket wire e = some id' → id' = id ∧ id ∉ c.redeemed) :
    Tickets wire (past ++ [e]) { c with
      pending := update c.pending id none
      redeemed := insert id c.redeemed
      nextSession
      sessions } where
  keyed id' pending hp := by
    rcases update_eq_some hp with ⟨-, hnone⟩ | ⟨-, hold⟩
    · cases hnone
    · exact h.keyed id' pending hold
  known id' := by
    rw [mem_filterMap_concat, hissued, h.known, Finset.mem_insert]
    by_cases heq : id' = id
    · rw [heq]
      exact iff_of_true (.inl (.inl hid)) (.inr (.inl rfl))
    · simp [heq]
  issuedOnce := nodup_filterMap_concat h.issuedOnce (by simp [hissued])
  spent id' hid' := by
    rcases mem_filterMap_concat.mp hid' with hold | hnew
    · exact Finset.mem_insert_of_mem (h.spent id' hold)
    · rw [(hspent id' hnew).1]
      exact Finset.mem_insert_self _ _
  redeemedOnce := by
    refine nodup_filterMap_concat h.redeemedOnce fun id' hnew hold => ?_
    obtain ⟨rfl, hid'⟩ := hspent id' hnew
    exact hid' (h.spent _ hold)

theorem Tickets.step (h : Tickets wire past c) (heff : Effect wire c op answer c') :
    Tickets wire (past ++ [(op, answer)]) c' := by
  cases heff with
  | unchanged hanswer =>
    obtain ⟨hissued, hspent, -⟩ := none_of_not_accepted wire op hanswer
    exact h.frame hissued hspent rfl rfl
  | issued issued _ _ hpending hredeemed _ => exact h.issue hpending hredeemed rfl rfl
  | fenced token _ | called | closed => exact h.frame rfl rfl rfl rfl
  | redeemed hrequest hredeemed hpending hlive =>
    refine h.spend (by rw [hpending]; rfl) rfl fun id hid => ?_
    rw [redeemedTicket, hrequest] at hid
    exact ⟨(some.inj hid).symm, hredeemed⟩
  | burned hrequest hpending => exact h.spend hpending rfl fun _ hid => by cases hid

/-! ## Generations -/

/-- Who holds a generation: a ticket that waits to be redeemed, or a session. -/
inductive Holder where
  | ticket (id : TicketId)
  | session (session : SessionId)
  deriving DecidableEq

def AdmissionController.holds (c : AdmissionController) : Holder → Option (WorkerId × FencingToken)
  | .ticket id => (c.pending id).map fun p => (p.ticket.workerId, p.ticket.fencingToken)
  | .session session => (c.sessions session).map fun state => (state.workerId, state.fencingToken)

theorem holds_ticket {p : PendingTicket} (h : c.pending id = some p) :
    c.holds (.ticket id) = some (p.ticket.workerId, p.ticket.fencingToken) := by
  rw [holds, h, map_some]

variable {session : SessionId} {state : SessionState} {worker : WorkerId}

theorem holds_session (h : c.sessions session = some state) :
    c.holds (.session session) = some (state.workerId, state.fencingToken) := by
  rw [holds, h, map_some]

/-- No generation past the live one is held, and none is held twice. -/
structure Fences (c : AdmissionController) : Prop where
  current : ∀ holder worker token, c.holds holder = some (worker, token) →
    ∃ live, c.generations.current worker = some live ∧ token.get ≤ live.get
  unique : ∀ holder holder' x, c.holds holder = some x → c.holds holder' = some x →
    holder = holder'
  below : ∀ session, (c.sessions session).isSome → session.get < c.nextSession

/-- Every generation is at least what it was. -/
def GenerationLedger.Grows (ledger ledger' : GenerationLedger) : Prop :=
  ∀ worker live, ledger.current worker = some live →
    ∃ live', ledger'.current worker = some live' ∧ live.get ≤ live'.get

theorem GenerationLedger.Grows.refl (ledger : GenerationLedger) : ledger.Grows ledger :=
  fun _ live h => ⟨live, h, le_rfl⟩

theorem GenerationLedger.grows_update {ledger : GenerationLedger} {token : FencingToken}
    (hnewer : ∀ live, ledger.current worker = some live → live.get < token.get) :
    ledger.Grows ⟨update ledger.current worker (some token)⟩ := by
  intro w live hlive
  dsimp only
  by_cases heq : w = worker
  · rw [heq, update_self]
    rw [heq] at hlive
    exact ⟨token, rfl, (hnewer live hlive).le⟩
  · rw [update_of_ne heq]
    exact ⟨live, hlive, le_rfl⟩

theorem Fences.frame (h : Fences c) (hgrows : c.generations.Grows c'.generations)
    (hheld : ∀ holder x, c'.holds holder = some x → c.holds holder = some x)
    (hbelow : ∀ session, (c'.sessions session).isSome → session.get < c'.nextSession) :
    Fences c' where
  current holder worker token hx := by
    obtain ⟨live, hlive, hle⟩ := h.current _ _ _ (hheld holder _ hx)
    obtain ⟨live', hlive', hle'⟩ := hgrows worker live hlive
    exact ⟨live', hlive', hle.trans hle'⟩
  unique holder holder' x hx hx' := h.unique _ _ x (hheld _ _ hx) (hheld _ _ hx')
  below := hbelow

variable {state' : SessionState} {acceptedCalls : Finset CallId} {closed : Bool}

/-- A session is written over, all but its ticket's grants. -/
theorem Fences.rewrite (h : Fences c) (hsession : c.sessions session = some state) :
    Fences { c with
      sessions := update c.sessions session (some { state with acceptedCalls, closed }) } := by
  refine h.frame (.refl _) ?_ ?_
  · intro holder x hx
    cases holder with
    | ticket id => exact hx
    | session s =>
      obtain ⟨st, hst, rfl⟩ := map_eq_some_iff.mp hx
      rcases update_eq_some hst with ⟨rfl, hnew⟩ | ⟨-, hold⟩
      · cases hnew
        exact (holds_session hsession).trans rfl
      · exact holds_session hold
  · intro s hs
    obtain ⟨st, hst⟩ := isSome_iff_exists.mp hs
    rcases update_eq_some hst with ⟨rfl, -⟩ | ⟨-, hold⟩
    · exact h.below _ (by rw [hsession]; rfl)
    · exact h.below _ (by rw [hold]; rfl)

variable {x : WorkerId × FencingToken} {pending : PendingTicket}

theorem holds_issue {generations : GenerationLedger} {holder : Holder}
    (hx : AdmissionController.holds { c with
      generations
      pending := update c.pending issued.ticket.ticketId (some ⟨issued.ticket, issued.secret⟩) }
      holder = some x) :
    (holder = .ticket issued.ticket.ticketId ∧
      x = (issued.ticket.workerId, issued.ticket.fencingToken)) ∨ c.holds holder = some x := by
  cases holder with
  | session s => exact .inr hx
  | ticket id =>
    obtain ⟨p, hp, rfl⟩ := map_eq_some_iff.mp hx
    rcases update_eq_some hp with ⟨rfl, hnew⟩ | ⟨-, hold⟩
    · cases hnew
      exact .inl ⟨rfl, rfl⟩
    · exact .inr (holds_ticket hold)

/-- A fresh generation goes to a ticket: nobody can hold it already. -/
theorem Fences.issue (h : Fences c)
    (hnewer : ∀ live, c.generations.current issued.ticket.workerId = some live →
      live.get < issued.ticket.fencingToken.get) :
    Fences { c with
      generations := ⟨update c.generations.current issued.ticket.workerId
        (some issued.ticket.fencingToken)⟩
      pending := update c.pending issued.ticket.ticketId (some ⟨issued.ticket, issued.secret⟩) } where
  current holder worker token hx := by
    rcases holds_issue hx with ⟨-, heq⟩ | hold
    · cases heq
      exact ⟨_, update_self _ _ _, le_rfl⟩
    obtain ⟨live, hlive, hle⟩ := h.current _ _ _ hold
    obtain ⟨live', hlive', hle'⟩ := grows_update hnewer worker live hlive
    exact ⟨live', hlive', hle.trans hle'⟩
  unique holder holder' x hx hx' := by
    have hfresh : ∀ holder,
        c.holds holder ≠ some (issued.ticket.workerId, issued.ticket.fencingToken) := by
      intro holder hold
      obtain ⟨live, hlive, hle⟩ := h.current _ _ _ hold
      exact absurd (hnewer live hlive) (by omega)
    rcases holds_issue hx with ⟨rfl, rfl⟩ | hold
    · rcases holds_issue hx' with ⟨rfl, -⟩ | hold'
      · rfl
      · exact absurd hold' (hfresh _)
    rcases holds_issue hx' with ⟨-, rfl⟩ | hold'
    · exact absurd hold (hfresh _)
    · exact h.unique _ _ x hold hold'
  below := h.below

theorem holds_spend {id' : TicketId} (hpending : c'.pending = update c.pending id none)
    (hx : c'.holds (.ticket id') = some x) :
    Holder.ticket id' ≠ .ticket id ∧ c.holds (.ticket id') = some x := by
  rw [holds, hpending] at hx
  obtain ⟨p, hp, rfl⟩ := map_eq_some_iff.mp hx
  rcases update_eq_some hp with ⟨-, hnone⟩ | ⟨hne, hold⟩
  · cases hnone
  · exact ⟨fun heq => hne (Holder.ticket.inj heq), holds_ticket hold⟩

/-- A session takes over from the ticket it was redeemed from. -/
theorem holds_redeem {redeemed : Finset TicketId} {nextSession : Nat} {holder : Holder}
    (hid : c.pending id = some pending) (hx : AdmissionController.holds { c with
      pending := update c.pending id none
      redeemed
      nextSession
      sessions := update c.sessions session (some pending.ticket.opened) } holder = some x) :
    (holder = .session session ∧ c.holds (.ticket id) = some x) ∨
    (holder ≠ .ticket id ∧ c.holds holder = some x) := by
  cases holder with
  | ticket id' => exact .inr (holds_spend rfl hx)
  | session s =>
    obtain ⟨state, hstate, rfl⟩ := map_eq_some_iff.mp hx
    rcases update_eq_some hstate with ⟨rfl, hnew⟩ | ⟨-, hold⟩
    · cases hnew
      exact .inl ⟨rfl, holds_ticket hid⟩
    · exact .inr ⟨nofun, holds_session hold⟩

theorem Fences.redeem {redeemed : Finset TicketId} (h : Fences c)
    (hid : c.pending id = some pending) :
    Fences { c with
      pending := update c.pending id none
      redeemed
      nextSession := c.nextSession + 1
      sessions := update c.sessions ⟨c.nextSession⟩ (some pending.ticket.opened) } where
  current holder worker token hx := by
    rcases holds_redeem hid hx with ⟨-, hold⟩ | ⟨-, hold⟩
    · exact h.current _ _ _ hold
    · exact h.current _ _ _ hold
  unique holder holder' x hx hx' := by
    rcases holds_redeem hid hx with ⟨rfl, hold⟩ | ⟨hne, hold⟩
    · rcases holds_redeem hid hx' with ⟨rfl, -⟩ | ⟨hne', hold'⟩
      · rfl
      · exact absurd (h.unique _ _ x hold' hold) hne'
    rcases holds_redeem hid hx' with ⟨-, hold'⟩ | ⟨-, hold'⟩
    · exact absurd (h.unique _ _ x hold hold') hne
    · exact h.unique _ _ x hold hold'
  below session hs := by
    obtain ⟨state, hstate⟩ := isSome_iff_exists.mp hs
    rcases update_eq_some hstate with ⟨rfl, -⟩ | ⟨-, hold⟩
    · exact Nat.lt_succ_self _
    · exact Nat.lt_succ_of_lt (h.below _ (by rw [hold]; rfl))

theorem Fences.step (h : Fences c) (heff : Effect wire c op answer c') : Fences c' := by
  cases heff with
  | unchanged => exact h
  | issued issued hworker _ _ _ hnewer =>
    subst hworker
    exact h.issue hnewer
  | fenced token hnewer =>
    exact h.frame (grows_update hnewer) (fun holder _ hx => by cases holder <;> exact hx) h.below
  | redeemed _ _ hpending _ => exact h.redeem hpending
  | burned =>
    refine h.frame (.refl _) (fun holder _ hx => ?_) h.below
    cases holder with
    | ticket id => exact (holds_spend rfl hx).2
    | session s => exact hx
  | called _ hsession | closed hsession => exact h.rewrite hsession

/-! ## Where a session comes from -/

/-- The event opened a generation of the worker. -/
def Opens (worker : WorkerId) : Event Payload → Prop
  | (.issue _ _ _ w _ _, .issued (.returned (.ok _))) => w = worker
  | (.fence w, .fenced (.ok _)) => w = worker
  | _ => False

/-- The event issued the ticket, to the worker and with the methods it was asked for. -/
def Issues (issued : IssuedAdmission) (e : Event Payload) : Prop :=
  ∃ nowMs identity secret ttlMs,
    e = (.issue nowMs identity secret issued.ticket.workerId ttlMs issued.ticket.allowedMethods,
      .issued (.returned (.ok issued)))

/-- The ticket was issued, and these are the events since. While its generation is
the live one, none of them opened another. -/
structure Since (past : List (Event Payload)) (ledger : GenerationLedger)
    (issued : IssuedAdmission) (since : List (Event Payload)) : Prop where
  issuedBefore : ∃ before e, past = before ++ e :: since ∧ Issues issued e
  unopened : ledger.current issued.ticket.workerId = some issued.ticket.fencingToken →
    ∀ e ∈ since, ¬ Opens issued.ticket.workerId e

theorem Opens.granted (h : Opens worker (op, answer)) :
    (∃ issued, answer = .issued (.returned (.ok issued))) ∨ ∃ token, answer = .fenced (.ok token) := by
  unfold Opens at h
  split at h
  · rename_i heq
    cases heq
    exact .inl ⟨_, rfl⟩
  · rename_i heq
    cases heq
    exact .inr ⟨_, rfl⟩
  · exact h.elim

/-- A generation that is live after a step, and was held before it, was live before it;
and the step opened none. -/
theorem Effect.live_before (heff : Effect wire c op answer c') {token live : FencingToken}
    (hlive : c.generations.current worker = some live) (hle : token.get ≤ live.get)
    (hafter : c'.generations.current worker = some token) :
    c.generations.current worker = some token ∧ ¬ Opens worker (op, answer) := by
  -- what a step opens for this worker is past `live`
  have hother : ∀ {w : WorkerId} {opened : FencingToken},
      (∀ current, c.generations.current w = some current → current.get < opened.get) →
      update c.generations.current w (some opened) worker = some token →
      c.generations.current worker = some token ∧ ¬ w = worker := by
    intro w opened hnewer hupdate
    rcases update_eq_some hupdate with ⟨rfl, heq⟩ | ⟨hne, hold⟩
    · cases heq
      exact absurd (hnewer live hlive) (by omega)
    · exact ⟨hold, hne.symm⟩
  cases heff with
  | unchanged hanswer =>
    refine ⟨hafter, fun hopens => ?_⟩
    obtain ⟨_, rfl⟩ | ⟨_, rfl⟩ := hopens.granted <;> cases hanswer
  | issued issued _ _ _ _ hnewer | fenced token hnewer => exact hother hnewer hafter
  | redeemed | burned | called | closed =>
    refine ⟨hafter, fun hopens => ?_⟩
    obtain ⟨_, heq⟩ | ⟨_, heq⟩ := hopens.granted <;> cases heq

theorem Since.step {past since : List (Event Payload)} (h : Since past c.generations issued since)
    (heff : Effect wire c op answer c')
    (hlive : ∃ live, c.generations.current issued.ticket.workerId = some live ∧
      issued.ticket.fencingToken.get ≤ live.get) :
    Since (past ++ [(op, answer)]) c'.generations issued (since ++ [(op, answer)]) := by
  obtain ⟨before, e, hpast, hissues⟩ := h.issuedBefore
  refine ⟨⟨before, e, by rw [hpast, List.append_assoc, List.cons_append], hissues⟩, ?_⟩
  intro hafter
  obtain ⟨live, hlive, hle⟩ := hlive
  obtain ⟨hbefore, hnot⟩ := heff.live_before hlive hle hafter
  exact List.forall_mem_append.mpr ⟨h.unopened hbefore, List.forall_mem_singleton.mpr hnot⟩

/-- The session was admitted with this ticket, has what the ticket grants, and while it is
open nobody has closed it since. -/
structure Grants (issued : IssuedAdmission) (since : List (Event Payload)) (session : SessionId)
    (state : SessionState) : Prop where
  admitted : ∃ earlier op later,
    since = earlier ++ (op, .admitted (.returned (.ok (issued.ticket.admitted session)))) :: later ∧
      (state.closed = false → ∀ e ∈ later, e.1 ≠ .close session)
  worker : state.workerId = issued.ticket.workerId
  token : state.fencingToken = issued.ticket.fencingToken
  methods : state.allowedMethods = issued.ticket.allowedMethods
  expiry : state.expiresAtMs = issued.ticket.expiresAtMs

/-- Every waiting ticket and every session goes back to an issue. -/
structure Origins (past : List (Event Payload)) (c : AdmissionController) : Prop where
  pending : ∀ id p, c.pending id = some p →
    ∃ since, Since past c.generations ⟨p.ticket, p.secret⟩ since
  session : ∀ s state, c.sessions s = some state →
    ∃ issued since, Since past c.generations issued since ∧ Grants issued since s state

section OriginsStep

variable {past : List (Event Payload)} {op : Op Payload} {answer : Answer Payload}

section

variable (h : Origins past c) (hf : Fences c) (heff : Effect wire c op answer c')
include h hf heff

theorem Origins.pending_step {p : PendingTicket} (hp : c.pending id = some p) :
    ∃ since, Since (past ++ [(op, answer)]) c'.generations ⟨p.ticket, p.secret⟩
      (since ++ [(op, answer)]) := by
  obtain ⟨since, hsince⟩ := h.pending id p hp
  exact ⟨since, hsince.step heff (hf.current _ _ _ (holds_ticket hp))⟩

/-- A session that a step writes over keeps its worker, generation, methods and expiry. -/
theorem Origins.session_step {s : SessionId} (hs : c.sessions s = some state)
    (hopen : closed = false → state.closed = false ∧ op ≠ .close s) :
    ∃ issued since, Since (past ++ [(op, answer)]) c'.generations issued since ∧
      Grants issued since s { state with acceptedCalls, closed } := by
  obtain ⟨issued, since, hsince, hgrants⟩ := h.session s state hs
  refine ⟨issued, _, hsince.step heff ?_, ?_⟩
  · rw [← hgrants.worker, ← hgrants.token]
    exact hf.current _ _ _ (holds_session hs)
  · obtain ⟨earlier, admitting, later, rfl, hlater⟩ := hgrants.admitted
    refine { hgrants with admitted := ⟨earlier, admitting, later ++ [(op, answer)], by simp, ?_⟩ }
    intro hnow
    obtain ⟨hbefore, hother⟩ := hopen hnow
    exact List.forall_mem_append.mpr ⟨hlater hbefore, List.forall_mem_singleton.mpr hother⟩

theorem Origins.step : Origins (past ++ [(op, answer)]) c' := by
  have hpending : ∀ id p, c.pending id = some p →
      ∃ since, Since (past ++ [(op, answer)]) c'.generations ⟨p.ticket, p.secret⟩ since := by
    intro id p hp
    obtain ⟨since, hsince⟩ := h.pending_step hf heff hp
    exact ⟨_, hsince⟩
  have hsession : ∀ s state, c.sessions s = some state → (state.closed = false → op ≠ .close s) →
      ∃ issued since, Since (past ++ [(op, answer)]) c'.generations issued since ∧
        Grants issued since s state :=
    fun s state hs hopen => h.session_step hf heff hs fun hnow => ⟨hnow, hopen hnow⟩
  have hspent : ∀ id id' p, update c.pending id none id' = some p →
      ∃ since, Since (past ++ [(op, answer)]) c'.generations ⟨p.ticket, p.secret⟩ since := by
    intro id id' p hp
    rcases update_eq_some hp with ⟨-, hnone⟩ | ⟨-, hold⟩
    · cases hnone
    · exact hpending id' p hold
  have heff' := heff
  cases heff with
  | unchanged _ hclosed =>
    refine ⟨hpending, fun s state hs => hsession s state hs fun hopen heq => ?_⟩
    cases hopen.symm.trans (hclosed s state heq hs)
  | fenced => exact ⟨hpending, fun s state hs => hsession s state hs fun _ => by simp⟩
  | issued issued hworker hallowed _ _ _ =>
    refine ⟨fun id p hp => ?_, fun s state hs => hsession s state hs fun _ => by simp⟩
    rcases update_eq_some hp with ⟨-, hnew⟩ | ⟨-, hold⟩
    · cases hnew
      subst hworker hallowed
      exact ⟨[], ⟨past, _, rfl, _, _, _, _, rfl⟩, by simp⟩
    · exact hpending id p hold
  | redeemed hrequest _ hid _ =>
    refine ⟨hspent _, fun s state hs => ?_⟩
    rcases update_eq_some hs with ⟨rfl, hnew⟩ | ⟨-, hold⟩
    · cases hnew
      obtain ⟨since, hsince⟩ := h.pending_step hf heff' hid
      exact ⟨_, _, hsince, ⟨_, _, [], rfl, by simp⟩, rfl, rfl, rfl, rfl⟩
    · exact hsession s state hold fun _ heq => by subst heq; cases hrequest
  | burned hrequest =>
    exact ⟨hspent _, fun s state hs => hsession s state hs fun _ heq => by subst heq; cases hrequest⟩
  | called hmade hid =>
    have hother : ∀ s, op ≠ .close s := fun s heq => by subst heq; cases hmade
    refine ⟨hpending, fun s state hs => ?_⟩
    rcases update_eq_some hs with ⟨rfl, hnew⟩ | ⟨-, hold⟩
    · cases hnew
      exact h.session_step hf heff' hid fun hopen => ⟨hopen, hother s⟩
    · exact hsession s state hold fun _ => hother s
  | closed hid =>
    refine ⟨hpending, fun s state hs => ?_⟩
    rcases update_eq_some hs with ⟨rfl, hnew⟩ | ⟨hne, hold⟩
    · cases hnew
      exact h.session_step hf heff' hid nofun
    · exact hsession s state hold fun _ heq => hne (Op.close.inj heq).symm

end

end OriginsStep

/-! ## Replays -/

/-- Every accepted call is remembered by its session. -/
structure Calls (past : List (Event Payload)) (c : AdmissionController) : Prop where
  remembered : ∀ s callId, (s, callId) ∈ past.filterMap acceptedCall →
    ∃ state, c.sessions s = some state ∧ callId ∈ state.acceptedCalls
  once : (past.filterMap acceptedCall).Nodup

/-- No session is dropped and none forgets a call. -/
theorem Effect.session_kept (heff : Effect wire c op answer c') (hf : Fences c) {s : SessionId}
    (hs : c.sessions s = some state) :
    ∃ state', c'.sessions s = some state' ∧ state.acceptedCalls ⊆ state'.acceptedCalls := by
  -- a session that is written over keeps the calls it has
  have hwrite : ∀ {s' : SessionId} {old new : SessionState}, c.sessions s' = some old →
      old.acceptedCalls ⊆ new.acceptedCalls →
      ∃ state', update c.sessions s' (some new) s = some state' ∧
        state.acceptedCalls ⊆ state'.acceptedCalls := by
    intro s' old new hold hsub
    by_cases heq : s = s'
    · rw [← heq, hs] at hold
      cases hold
      rw [heq, update_self]
      exact ⟨new, rfl, hsub⟩
    · rw [update_of_ne heq]
      exact ⟨state, hs, Finset.Subset.refl _⟩
  cases heff with
  | unchanged | issued | fenced | burned => exact ⟨state, hs, Finset.Subset.refl _⟩
  | redeemed =>
    have hne : s ≠ ⟨c.nextSession⟩ := by
      rintro rfl
      exact lt_irrefl _ (hf.below _ (by rw [hs]; rfl))
    exact ⟨state, by rw [← hs]; exact update_of_ne hne _ _, Finset.Subset.refl _⟩
  | called _ hold => exact hwrite hold (Finset.subset_insert _ _)
  | closed hold => exact hwrite hold (Finset.Subset.refl _)

theorem Calls.step (h : Calls past c) (hf : Fences c) (heff : Effect wire c op answer c') :
    Calls (past ++ [(op, answer)]) c' := by
  have hold : ∀ s callId, (s, callId) ∈ past.filterMap acceptedCall →
      ∃ state, c'.sessions s = some state ∧ callId ∈ state.acceptedCalls := by
    intro s callId hmem
    obtain ⟨state, hs, hcall⟩ := h.remembered s callId hmem
    obtain ⟨state', hs', hsub⟩ := heff.session_kept hf hs
    exact ⟨state', hs', hsub hcall⟩
  -- an event that accepts no call
  have hframe : acceptedCall (op, answer) = none → Calls (past ++ [(op, answer)]) c' := by
    intro hnone
    refine ⟨fun s callId hmem => ?_, nodup_filterMap_concat h.once (by simp [hnone])⟩
    rw [mem_filterMap_concat, hnone] at hmem
    exact hold s callId (hmem.resolve_right (by simp))
  cases heff with
  | unchanged hanswer => exact hframe (none_of_not_accepted wire op hanswer).2.2
  | issued | fenced | redeemed | burned | closed => exact hframe rfl
  | called _ hs _ _ _ hcall =>
    refine ⟨fun s callId hmem => ?_, nodup_filterMap_concat h.once fun x hx hmem => ?_⟩
    · rcases mem_filterMap_concat.mp hmem with hmem | hnew
      · exact hold s callId hmem
      · cases hnew
        exact ⟨_, update_self _ _ _, Finset.mem_insert_self _ _⟩
    · cases hx
      obtain ⟨state', hs', hcall'⟩ := h.remembered _ _ hmem
      rw [hs] at hs'
      cases hs'
      exact hcall hcall'

/-! ## Whole runs -/

/-- What holds of a controller and the history of what was done to it. -/
structure Guarded (wire : Wire Payload) (past : List (Event Payload))
    (c : AdmissionController) : Prop where
  tickets : Tickets wire past c
  fences : Fences c
  origins : Origins past c
  calls : Calls past c

theorem guarded_new {limits : PayloadLimits} (h : new limits = .ok c) : Guarded wire [] c := by
  unfold new at h
  cases hlimits : limits.validate with rw [hlimits] at h
  | error e => cases h
  | ok _ =>
    cases h
    refine ⟨⟨nofun, ?_, .nil, nofun, .nil⟩, ⟨?_, ?_, nofun⟩, ⟨nofun, nofun⟩, nofun, .nil⟩
    · exact fun id => by simp
    · exact fun holder _ _ h => by cases holder <;> cases h
    · exact fun holder _ _ h => by cases holder <;> cases h

theorem Guarded.step (h : Guarded wire past c) (heff : Effect wire c op answer c') :
    Guarded wire (past ++ [(op, answer)]) c' where
  tickets := h.tickets.step heff
  fences := h.fences.step heff
  origins := h.origins.step h.fences heff
  calls := h.calls.step h.fences heff

/-- What lets a call through: its session was admitted with a ticket and not closed since, is in
the last generation that was opened for its worker, and within what the ticket grants. -/
def Permitted (past : List (Event Payload)) (c : AdmissionController) (nowMs : Nat)
    (accepted : CallAccepted Payload) : Prop :=
  ∃ state, c.sessions accepted.session = some state ∧ state.closed = false ∧
    ∃ before e since issued, past = before ++ e :: since ∧ Issues issued e ∧
      (∃ earlier op later, since = earlier ++
          (op, .admitted (.returned (.ok (issued.ticket.admitted accepted.session)))) :: later ∧
        ∀ e ∈ later, e.1 ≠ .close accepted.session) ∧
      (∀ e ∈ since, ¬ Opens issued.ticket.workerId e) ∧
      state.workerId = issued.ticket.workerId ∧
      state.fencingToken = issued.ticket.fencingToken ∧
      c.generations.current issued.ticket.workerId = some issued.ticket.fencingToken ∧
      nowMs < issued.ticket.expiresAtMs ∧ accepted.method ∈ issued.ticket.allowedMethods.methods

theorem Guarded.permitted {accepted : CallAccepted Payload} (h : Guarded wire past c)
    (heff : Effect wire c op (.called (.ok accepted)) c') :
    ∃ nowMs, op.made wire = some
        (nowMs, accepted.session, ⟨accepted.callId, accepted.method, accepted.payload⟩) ∧
      Permitted past c nowMs accepted := by
  cases heff with
  | unchanged hanswer => cases hanswer
  | called hmade hs hopen hlive hexpiry _ hmethod =>
    obtain ⟨issued, since, hsince, hgrants⟩ := h.origins.session _ _ hs
    obtain ⟨before, e, hpast, hissues⟩ := hsince.issuedBefore
    rw [hgrants.worker, hgrants.token] at hlive
    rw [hgrants.expiry] at hexpiry
    rw [hgrants.methods] at hmethod
    obtain ⟨earlier, admitting, later, hsplit, hunclosed⟩ := hgrants.admitted
    exact ⟨_, hmade, _, hs, hopen, before, e, since, issued, hpast, hissues,
      ⟨earlier, admitting, later, hsplit, hunclosed hopen⟩, hsince.unopened hlive,
      hgrants.worker, hgrants.token, hlive, hexpiry, hmethod⟩

/-- **Worker fencing.** In every run of a controller, whatever the clock reads: a ticket
is redeemed at most once, at most one session of a worker is not fenced off, every call
that is accepted is permitted, none is accepted twice, and a refusal changes nothing. -/
theorem controller_fencing (wire : Wire Payload) {limits : PayloadLimits}
    {c₀ : AdmissionController} (hnew : AdmissionController.new limits = .ok c₀)
    (ops : List (Op Payload)) :
    let past := history (step wire) c₀ ops
    let c := after (step wire) c₀ ops
    ((past.filterMap issuedTicket).Nodup ∧ (past.filterMap (redeemedTicket wire)).Nodup ∧
      ∀ id ∈ past.filterMap (redeemedTicket wire), id ∈ past.filterMap issuedTicket) ∧
    (∀ s s' state state', c.sessions s = some state → c.sessions s' = some state' →
      state.workerId = state'.workerId →
      c.generations.verify state.workerId state.fencingToken = .ok () →
      c.generations.verify state'.workerId state'.fencingToken = .ok () → s = s') ∧
    (∀ op accepted, (step wire c op).1 = .called (.ok accepted) →
      ∃ nowMs, op.made wire = some
          (nowMs, accepted.session, ⟨accepted.callId, accepted.method, accepted.payload⟩) ∧
        Permitted past c nowMs accepted) ∧
    (past.filterMap acceptedCall).Nodup ∧
    (∀ op, (step wire c op).1.refused = true → (step wire c op).2 = c) := by
  intro past c
  have h : Guarded wire past c := history_inv (fun _ s op hI _ => hI.step (step_effect wire s op))
    ops [] _ (guarded_new hnew) (along_true ops _)
  refine ⟨⟨h.tickets.issuedOnce, h.tickets.redeemedOnce, ?_⟩, ?_, ?_, h.calls.once, ?_⟩
  · intro id hid
    exact (h.tickets.known id).mpr (.inr (h.tickets.spent id hid))
  · intro s s' state state' hs hs' hworker hverify hverify'
    have hlive := verify_eq_ok hverify
    have hlive' := verify_eq_ok hverify'
    rw [hworker, hlive', some_inj] at hlive
    have hholds := holds_session hs
    rw [hworker, ← hlive] at hholds
    exact Holder.session.inj (h.fences.unique _ _ _ hholds (holds_session hs'))
  · intro op accepted haccepted
    have heff := step_effect wire c op
    rw [haccepted] at heff
    exact h.permitted heff
  · intro op hrefused
    exact (step_effect wire c op).eq_of_refused hrefused

/-- A worker is admitted, closed and admitted again; it makes a call twice, is fenced off, and
tries again. -/
def evictedRun : List (Op Unit) :=
  let worker : WorkerId := ⟨"worker-a", by decide +kernel⟩
  let heartbeat : MethodName := ⟨"worker.heartbeat", by decide +kernel⟩
  let first : TicketId := ⟨"00000000000000000000000000000000", by decide +kernel⟩
  let second : TicketId := ⟨"01010101010101010101010101010101", by decide +kernel⟩
  let secret : AdmissionSecret := Vector.replicate _ 7
  let call (callId : CallId) : WorkerCall Unit := ⟨callId, heartbeat, ()⟩
  [.issue 1000 (.ok (Vector.replicate _ 0)) (.ok secret) worker 500 ⟨{heartbeat}⟩,
    .admitWorker 1001 ⟨first, worker, ⟨1, by decide⟩, secret⟩,
    .close ⟨1⟩,
    .call 1002 ⟨1⟩ (call ⟨"call-1", by decide +kernel⟩),
    .issue 1003 (.ok (Vector.replicate _ 1)) (.ok secret) worker 500 ⟨{heartbeat}⟩,
    .admitWorker 1004 ⟨second, worker, ⟨2, by decide⟩, secret⟩,
    .call 1005 ⟨2⟩ (call ⟨"call-1", by decide +kernel⟩),
    .call 1006 ⟨2⟩ (call ⟨"call-1", by decide +kernel⟩),
    .fence worker,
    .call 1007 ⟨2⟩ (call ⟨"call-2", by decide +kernel⟩)]

theorem controller_fencing_evicted :
    let wire : Wire Unit := ⟨fun _ => .error "", fun _ => .error ""⟩
    let accepted : CallAccepted Unit :=
      ⟨⟨2⟩, ⟨"call-1", by decide +kernel⟩, ⟨"worker.heartbeat", by decide +kernel⟩, ()⟩
    ∃ c₀, AdmissionController.new ⟨8192, 262144⟩ = .ok c₀ ∧
      (history (step wire) c₀ evictedRun).map (fun e => e.2.accepted)
        = [true, true, true, false, true, true, true, false, true, false] ∧
      ((history (step wire) c₀ evictedRun).filterMap acceptedCall).Nodup ∧
      Permitted (history (step wire) c₀ (evictedRun.take 6))
        (after (step wire) c₀ (evictedRun.take 6)) 1005 accepted := by
  intro wire accepted
  have hnew : AdmissionController.new ⟨8192, 262144⟩
      = .ok ⟨⟨8192, 262144⟩, .empty, fun _ => none, ∅, fun _ => none, 1⟩ := rfl
  refine ⟨_, hnew, by decide +kernel, (controller_fencing wire hnew evictedRun).2.2.2.1, ?_⟩
  obtain ⟨nowMs, hmade, hpermitted⟩ := (controller_fencing wire hnew (evictedRun.take 6)).2.2.1
    (.call 1005 ⟨2⟩ ⟨accepted.callId, accepted.method, ()⟩) accepted rfl
  cases hmade
  exact hpermitted

end GtaClaw.Worker
