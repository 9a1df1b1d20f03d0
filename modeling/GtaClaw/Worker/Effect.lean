import GtaClaw.Worker.Controller

/-!
# What an operation of the controller can do

The checks of an operation are read once, here. An operation issues a ticket,
opens a generation, redeems or burns a ticket, accepts a call or closes a
session, and else leaves the controller as it is. `Effect` lists these with what
the checks have established by then.
-/

namespace GtaClaw.Worker

open GtaClaw.Runtime AdmissionController

variable {Payload : Type} {wire : Wire Payload} {c c' : AdmissionController}

/-! ## The checks -/

/-- A generation is opened past the live one, or nothing happens. -/
theorem GenerationLedger.openGeneration_cases (ledger : GenerationLedger) (worker : WorkerId) :
    (∃ e, ledger.openGeneration worker = (.error e, ledger)) ∨
    ∃ token : FencingToken,
      ledger.openGeneration worker
        = (.ok token, ⟨Function.update ledger.current worker (some token)⟩) ∧
      ∀ current, ledger.current worker = some current → current.get < token.get := by
  unfold openGeneration
  cases hcurrent : ledger.current worker with
  | none => exact .inr ⟨⟨1, by decide⟩, rfl, by simp⟩
  | some current =>
    dsimp only
    cases hnext : checkedAdd current.get 1 with
    | none => exact .inl ⟨_, rfl⟩
    | some next =>
      obtain ⟨-, rfl⟩ := checkedAdd_eq_some hnext
      have hpos : current.get + 1 ≠ 0 := by omega
      have htoken : FencingToken.new (current.get + 1) = some ⟨_, hpos⟩ := dif_neg hpos
      refine .inr ⟨⟨_, hpos⟩, ?_, ?_⟩
      · dsimp only
        rw [htoken]
      · intro _ h
        cases h
        exact Nat.lt_succ_self _

theorem GenerationLedger.verify_eq_ok {ledger : GenerationLedger} {worker : WorkerId}
    {token : FencingToken} (h : ledger.verify worker token = .ok ()) :
    ledger.current worker = some token := by
  unfold verify at h
  cases hcurrent : ledger.current worker with rw [hcurrent] at h
  | none => cases h
  | some current =>
    dsimp only at h
    by_cases heq : token.get = current.get
    · rw [FencingToken.ext heq]
    · rw [if_neg heq] at h
      split at h <;> cases h

/-! ## The effects -/

def Op.request (wire : Wire Payload) : Op Payload → Option AdmissionRequest
  | .admitWorker _ request => some request
  | .admitEncoded _ frame => (wire.admission frame).toOption
  | _ => none

/-- The call that an operation makes: when, in which session, and what. -/
def Op.made (wire : Wire Payload) : Op Payload → Option (Nat × SessionId × WorkerCall Payload)
  | .call nowMs session made => some (nowMs, session, made)
  | .callEncoded nowMs session frame => (wire.call frame).toOption.map (nowMs, session, ·)
  | _ => none

/-- The operation did what it is for. -/
def Answer.accepted : Answer Payload → Bool
  | .issued (.returned (.ok _)) => true
  | .fenced (.ok _) => true
  | .admitted (.returned (.ok _)) => true
  | .called (.ok _) => true
  | .closed done => done
  | _ => false

/-- The operation returned an error. -/
def Answer.refused : Answer Payload → Bool
  | .issued (.returned (.error _)) => true
  | .fenced (.error _) => true
  | .admitted (.returned (.error _)) => true
  | .called (.error _) => true
  | _ => false

/-- The session that a ticket is redeemed into. -/
def AdmissionTicket.opened (ticket : AdmissionTicket) : SessionState :=
  ⟨ticket.workerId, ticket.fencingToken, ticket.allowedMethods, ticket.expiresAtMs, ∅, false⟩

def AdmissionTicket.admitted (ticket : AdmissionTicket) (session : SessionId) : AdmittedSession :=
  ⟨session, ticket.workerId, ticket.fencingToken, ticket.expiresAtMs, ticket.allowedMethods⟩

/-- What one operation does to the controller. -/
inductive Effect (wire : Wire Payload) (c : AdmissionController) :
    Op Payload → Answer Payload → AdmissionController → Prop where
  | unchanged {op answer} (hanswer : answer.accepted = false)
      (hclosed : ∀ session state, op = .close session → c.sessions session = some state →
        state.closed = true) :
      Effect wire c op answer c
  | issued {nowMs identity secret worker ttlMs allowed} (issued : IssuedAdmission)
      (hworker : issued.ticket.workerId = worker) (hallowed : issued.ticket.allowedMethods = allowed)
      (hpending : c.pending issued.ticket.ticketId = none)
      (hredeemed : issued.ticket.ticketId ∉ c.redeemed)
      (hnewer : ∀ current, c.generations.current worker = some current →
        current.get < issued.ticket.fencingToken.get) :
      Effect wire c (.issue nowMs identity secret worker ttlMs allowed)
        (.issued (.returned (.ok issued)))
        { c with
          generations :=
            ⟨Function.update c.generations.current worker (some issued.ticket.fencingToken)⟩
          pending :=
            Function.update c.pending issued.ticket.ticketId
              (some ⟨issued.ticket, issued.secret⟩) }
  | fenced {worker} (token : FencingToken)
      (hnewer : ∀ current, c.generations.current worker = some current →
        current.get < token.get) :
      Effect wire c (.fence worker) (.fenced (.ok token))
        { c with generations := ⟨Function.update c.generations.current worker (some token)⟩ }
  | redeemed {op} {request : AdmissionRequest} {pending : PendingTicket}
      (hrequest : op.request wire = some request)
      (hredeemed : request.ticketId ∉ c.redeemed)
      (hpending : c.pending request.ticketId = some pending)
      (hlive : c.generations.current pending.ticket.workerId = some pending.ticket.fencingToken) :
      Effect wire c op (.admitted (.returned (.ok (pending.ticket.admitted ⟨c.nextSession⟩))))
        { c with
          pending := Function.update c.pending request.ticketId none
          redeemed := insert request.ticketId c.redeemed
          nextSession := c.nextSession + 1
          sessions := Function.update c.sessions ⟨c.nextSession⟩ (some pending.ticket.opened) }
  | burned {op} {request : AdmissionRequest} (hrequest : op.request wire = some request)
      (hpending : (c.pending request.ticketId).isSome) :
      Effect wire c op (.admitted .panicked)
        { c with
          pending := Function.update c.pending request.ticketId none
          redeemed := insert request.ticketId c.redeemed }
  | called {op nowMs session callId method payload} {state : SessionState}
      (hmade : op.made wire = some (nowMs, session, ⟨callId, method, payload⟩))
      (hsession : c.sessions session = some state)
      (hopen : state.closed = false)
      (hlive : c.generations.current state.workerId = some state.fencingToken)
      (hexpiry : nowMs < state.expiresAtMs) (hcall : callId ∉ state.acceptedCalls)
      (hmethod : method ∈ state.allowedMethods.methods) :
      Effect wire c op (.called (.ok ⟨session, callId, method, payload⟩))
        { c with
          sessions := Function.update c.sessions session (some
            { state with acceptedCalls := insert callId state.acceptedCalls }) }
  | closed {session} {state : SessionState} (hsession : c.sessions session = some state) :
      Effect wire c (.close session) (.closed true)
        { c with
          sessions := Function.update c.sessions session (some { state with closed := true }) }

variable {op : Op Payload}

theorem admitWorker_effect {request : AdmissionRequest} (nowMs : Nat)
    (hrequest : op.request wire = some request) :
    Effect wire c op (.admitted (c.admitWorker nowMs request).1)
      (c.admitWorker nowMs request).2 := by
  unfold admitWorker
  cases hscreen : c.screen nowMs request with
  | error e => exact .unchanged rfl fun _ _ heq => by subst heq; cases hrequest
  | ok pending =>
    revert hscreen
    fun_cases screen c nowMs request with (intro hscreen; cases hscreen)
    | case9 hredeemed _ hpending _ _ _ _ _ hverify =>
      cases hnext : checkedAdd c.nextSession 1 with
      | none => exact .burned hrequest (by rw [hpending]; rfl)
      | some next =>
        obtain ⟨-, rfl⟩ := checkedAdd_eq_some hnext
        exact .redeemed hrequest hredeemed hpending (GenerationLedger.verify_eq_ok hverify)

theorem call_effect {nowMs : Nat} (session : SessionId)
    (call : WorkerCall Payload) (hmade : op.made wire = some (nowMs, session, call)) :
    Effect wire c op (.called (c.call nowMs session call).1) (c.call nowMs session call).2 := by
  fun_cases AdmissionController.call c nowMs session call with
  | case7 state hsession hclosed hverify hexpiry hcall hmethod =>
    refine .called hmade hsession (Bool.eq_false_of_not_eq_true hclosed)
      (GenerationLedger.verify_eq_ok hverify) (by omega) hcall ?_
    rw [Bool.not_eq_true, Bool.not_eq_false'] at hmethod
    exact of_decide_eq_true hmethod
  | _ => exact .unchanged rfl fun _ _ heq => by subst heq; cases hmade

theorem step_effect (wire : Wire Payload) (c : AdmissionController) (op : Op Payload) :
    Effect wire c op (step wire c op).1 (step wire c op).2 := by
  cases op with
  | issue nowMs identity secret worker ttlMs allowed =>
    dsimp only [step]
    fun_cases issue c nowMs identity secret worker ttlMs allowed with
    | case8 _ _ _ _ _ _ hfresh _ _ _ hissued =>
      rw [not_or, Option.not_isSome_iff_eq_none] at hfresh
      obtain ⟨e, hopen⟩ | ⟨token, hopen, hnewer⟩ := c.generations.openGeneration_cases worker
      · cases hissued.symm.trans hopen
      · cases hissued.symm.trans hopen
        exact .issued ⟨_, _⟩ rfl rfl hfresh.1 hfresh.2 hnewer
    | _ => exact .unchanged rfl (by simp)
  | fence worker =>
    dsimp only [step, fence]
    obtain ⟨e, hopen⟩ | ⟨token, hopen, hnewer⟩ := c.generations.openGeneration_cases worker
    · rw [hopen]
      exact .unchanged rfl (by simp)
    · rw [hopen]
      exact .fenced token hnewer
  | admitWorker nowMs request => exact admitWorker_effect nowMs rfl
  | admitEncoded nowMs frame =>
    dsimp only [step]
    fun_cases admitEncoded wire.admission c nowMs frame with
    | case3 _ request hdecode =>
      refine admitWorker_effect nowMs ?_
      rw [Op.request, hdecode]
      rfl
    | _ => exact .unchanged rfl (by simp)
  | call nowMs session call => exact call_effect session call rfl
  | callEncoded nowMs session frame =>
    dsimp only [step]
    fun_cases callEncoded wire.call c nowMs session frame with
    | case3 _ call hdecode =>
      refine call_effect session call ?_
      rw [Op.made, hdecode]
      rfl
    | _ => exact .unchanged rfl (by simp)
  | close session =>
    dsimp only [step]
    fun_cases close c session with
    | case1 hnone =>
      refine .unchanged rfl fun s state heq hs => ?_
      cases heq
      cases hnone.symm.trans hs
    | case2 state hsession hclosed =>
      refine .unchanged rfl fun s state' heq hs => ?_
      cases heq
      cases hsession.symm.trans hs
      exact hclosed
    | case3 state hsession => exact .closed hsession

/-- **A refused operation changes nothing.** -/
theorem Effect.eq_of_refused {answer : Answer Payload}
    (h : Effect wire c op answer c') (hrefused : answer.refused = true) : c' = c := by
  cases h with
  | unchanged => rfl
  | _ => cases hrefused

end GtaClaw.Worker
