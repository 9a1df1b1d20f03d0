import GtaClaw.Lib.Run
import GtaClaw.Lib.Table
import GtaClaw.Runtime.Ids

/-!
# The approval broker

A request for approval is presented to an operator and waits until a decision, a
cancellation, a revocation of the caller's authority or its deadline ends the
wait. Whoever ends it has to take the pending entry away and to dismiss the
prompt through the port.

Every locked section is one step, and so is every poll of one arm of the wait. A
call of `request`, of `resolve` or of `withdraw_all` is a task that other calls
can come between. The future of a request can be dropped where it awaits; its
guard then retracts the entry. What the port answers, and when, is not known.
-/

namespace GtaClaw.Approval

open Lib GtaClaw.Runtime

/-! ## Values -/

inductive ApprovalScope where
  | once
  | session
  deriving DecidableEq, Repr

def ApprovalScope.isRemembered : ApprovalScope → Bool
  | .once => false
  | .session => true

inductive ApprovalVerdict where
  | approve
  | deny
  deriving DecidableEq, Repr

structure ApprovalDecision where
  verdict : ApprovalVerdict
  scope : ApprovalScope
  deriving DecidableEq, Repr

inductive ApprovalWithdrawal where
  | timedOut
  | cancelled
  deriving DecidableEq, Repr

inductive ApprovalOutcome where
  | decided (decision : ApprovalDecision) (remembered : Bool)
  | withdrawn (reason : ApprovalWithdrawal)
  deriving DecidableEq, Repr

inductive ApprovalError where
  | port (error : PortError)
  | unknown (id : ApprovalId)
  | deadlineOverflow
  | identifier (reason : String)
  deriving DecidableEq

structure ApprovalTicket where
  sessionId : SessionId
  turn : Nat
  callId : ToolCallId
  toolName : String
  arguments : String

structure ApprovalRequest where
  approvalId : ApprovalId
  ticket : ApprovalTicket
  requestedAt : Timestamp
  expiresAt : Timestamp

inductive InvocationAccess where
  | readOnly
  | execute
  | owner
  deriving DecidableEq, Repr

/-- What the broker reads of the claims of an authenticated caller. -/
structure InvocationAuthority where
  access : InvocationAccess
  /-- The signal that revokes it, if it can be revoked. -/
  revocation : Option Nat

def InvocationAuthority.isRevoked (revoked : Nat → Bool) (authority : InvocationAuthority) : Bool :=
  authority.revocation.any revoked

def InvocationAuthority.canExecute (revoked : Nat → Bool) (authority : InvocationAuthority) : Bool :=
  authority.access ≠ .readOnly && !authority.isRevoked revoked

structure ToolBinding where
  identity : String
  revision : Nat
  resource : Option String

/-! ## The broker's state -/

structure Pending where
  request : ApprovalRequest
  authority : Option InvocationAuthority
  binding : Option ToolBinding
  bindingToken : Option String
  /-- The call of `request` that the responder wakes, and whose flag says that a
  decision was accepted. -/
  responder : Nat
  cancellation : Nat

structure BrokerState where
  pending : Table ApprovalId Pending
  remembered : Table String (Table String ApprovalDecision)
  nextId : Nat

namespace BrokerState

variable (state : BrokerState)

variable (sessionId : SessionId)

def rememberedFor (toolName : String) : Option ApprovalDecision :=
  (state.remembered.lookup sessionId.asStr).bind fun tools => tools.lookup toolName

def remember (toolName : String) (decision : ApprovalDecision) : BrokerState :=
  let tools := (state.remembered.lookup sessionId.asStr).getD ∅
  { state with remembered := state.remembered.insert sessionId.asStr (tools.insert toolName decision) }

def forget (toolName : String) : BrokerState :=
  match state.remembered.lookup sessionId.asStr with
  | none => state
  | some tools =>
    let tools := tools.erase toolName
    if tools.entries.isEmpty then
      { state with remembered := state.remembered.erase sessionId.asStr }
    else { state with remembered := state.remembered.insert sessionId.asStr tools }

def forgetSession : BrokerState :=
  { state with remembered := state.remembered.erase sessionId.asStr }

def discard (id : ApprovalId) : Bool × BrokerState :=
  ((state.pending.lookup id).isSome, { state with pending := state.pending.erase id })

end BrokerState

/-! ## Tasks -/

/-- The arms of the wait, in the order in which they are polled. -/
inductive Arm where
  | cancel
  | revoked
  | receiver
  | deadline
  deriving DecidableEq, Repr

/-- Which arm ended the wait without a decision. The receiver's does when the responder
was dropped. -/
abbrev Ending := Arm

/-- What the receiver of a request finds. -/
inductive Mailbox where
  | empty
  | delivered (decision : ApprovalDecision)
  | disconnected
  deriving DecidableEq, Repr

/-- Where a call of `request` stands. -/
inductive Stage where
  | unpolled
  | recalling
  | dating
  | minting (requestedAt expiresAt : Timestamp)
  | binding
  | registering (token : Option String)
  /-- The guard is armed; the first await. -/
  | presenting
  /-- The wait; between two polls the next arm is `cancel`. -/
  | selecting (arm : Arm)
  /-- The wait is over without a decision, and the guard disarmed. -/
  | ended
  | dismissing (stillPending : Bool)
  | withdrawing (reason : ApprovalWithdrawal)
  | settling (decision : ApprovalDecision)
  /-- Dropped in the wait: the receiver is gone and the guard is next. -/
  | retracting
  | abandoning (removed : Bool)
  | returned (result : Except ApprovalError ApprovalOutcome)
  | dropped
  deriving DecidableEq

/-- Has the receiver of this request not been dropped? -/
def Stage.listens : Stage → Bool
  | .presenting => true
  | .selecting _ => true
  | _ => false

structure Waiter where
  ticket : ApprovalTicket
  authority : Option InvocationAuthority
  binding : Option ToolBinding
  cancel : Nat
  stage : Stage
  /-- Once an identifier is minted. -/
  request : Option ApprovalRequest
  decisionAccepted : Bool
  mailbox : Mailbox
  /-- The port took the presentation. -/
  presented : Bool
  ending : Option Ending

inductive PortCall where
  | present (id : ApprovalId)
  | settle (id : ApprovalId)
  | withdraw (id : ApprovalId) (reason : ApprovalWithdrawal)
  | abandon (id : ApprovalId)
  deriving DecidableEq

inductive ResolveStage where
  | refused (error : ApprovalError)
  /-- The entry is taken, and the decision not yet sent. -/
  | sending
  /-- Returned `Ok`. -/
  | done
  deriving DecidableEq

/-- A call of `resolve` or `resolve_bound`. -/
structure Resolve where
  id : ApprovalId
  decision : ApprovalDecision
  responder : Nat
  stage : ResolveStage

/-- A call of `withdraw_all`: what it still has to withdraw. -/
structure Sweep where
  reason : ApprovalWithdrawal
  drained : List ApprovalId
  awaiting : Bool
  firstError : Option ApprovalError

/-- The broker with its calls, the clock, the signals, and what the port was told. -/
structure World where
  timeout : Duration
  broker : BrokerState
  now : Timestamp
  cancelled : Nat → Bool
  revoked : Nat → Bool
  waiters : List Waiter
  resolves : List Resolve
  sweeps : List Sweep
  port : List PortCall

/-! ## A request -/

namespace Waiter

/-- The sections before an identifier is minted. -/
def enter (w : World) (v : Waiter) : Waiter × BrokerState :=
  match v.stage with
  | .unpolled =>
    if w.cancelled v.cancel || v.authority.any fun a => !a.canExecute w.revoked then
      ({ v with stage := .returned (.ok (.withdrawn .cancelled)) }, w.broker)
    else ({ v with stage := .recalling }, w.broker)
  | .recalling =>
    match v.authority, w.broker.rememberedFor v.ticket.sessionId v.ticket.toolName with
    | none, some decision =>
      ({ v with stage := .returned (.ok (.decided decision true)) }, w.broker)
    | _, _ => ({ v with stage := .dating }, w.broker)
  | .dating =>
    match w.now.checkedAdd w.timeout with
    | none => ({ v with stage := .returned (.error .deadlineOverflow) }, w.broker)
    | some expiresAt => ({ v with stage := .minting w.now expiresAt }, w.broker)
  | .minting requestedAt expiresAt =>
    match checkedAdd w.broker.nextId 1 with
    | none =>
      ({ v with stage := .returned (.error
        (.identifier "the broker has exhausted its identifier space")) }, w.broker)
    | some ordinal =>
      let broker : BrokerState := { w.broker with nextId := ordinal }
      match Identifier.new "approval id" ("approval-" ++ toString ordinal) with
      | .error e => ({ v with stage := .returned (.error (.identifier e.reason)) }, broker)
      | .ok id =>
        ({ v with
          stage := .binding
          request := some ⟨id, v.ticket, requestedAt, expiresAt⟩ }, broker)
  | _ => (v, w.broker)

/-- `cancel.is_cancelled()` or the authority is revoked. -/
def reason (w : World) (v : Waiter) : ApprovalWithdrawal :=
  if w.cancelled v.cancel || v.authority.any (·.isRevoked w.revoked) then .cancelled else .timedOut

/-- The sections after that, as far as they do not wait for the port. -/
def proceed (w : World) (i : Nat) (v : Waiter) (request : ApprovalRequest) :
    Waiter × BrokerState × List PortCall :=
  let id := request.approvalId
  match v.stage with
  | .binding =>
    if v.binding.isNone then ({ v with stage := .registering none }, w.broker, [])
    else (v, w.broker, [])
  | .registering token =>
    let entry : Pending := ⟨request, v.authority, v.binding, token, i, v.cancel⟩
    ({ v with stage := .presenting },
      { w.broker with pending := w.broker.pending.insert id entry }, [.present id])
  | .selecting .cancel =>
    if w.cancelled v.cancel then
      ({ v with stage := .ended, ending := some .cancel }, w.broker, [])
    else ({ v with stage := .selecting .revoked }, w.broker, [])
  | .selecting .revoked =>
    if v.authority.any (·.isRevoked w.revoked) then
      ({ v with stage := .ended, ending := some .revoked }, w.broker, [])
    else ({ v with stage := .selecting .receiver }, w.broker, [])
  | .selecting .receiver =>
    match v.mailbox with
    | .delivered decision => ({ v with stage := .settling decision }, w.broker, [.settle id])
    | .disconnected => ({ v with stage := .ended, ending := some .receiver }, w.broker, [])
    | .empty => ({ v with stage := .selecting .deadline }, w.broker, [])
  | .selecting .deadline =>
    if request.expiresAt ≤ w.now then
      ({ v with stage := .ended, ending := some .deadline }, w.broker, [])
    else ({ v with stage := .selecting .cancel }, w.broker, [])
  | .ended =>
    let (stillPending, broker) := w.broker.discard id
    ({ v with stage := .dismissing stillPending }, broker, [])
  | .dismissing stillPending =>
    if stillPending || v.decisionAccepted then
      ({ v with stage := .withdrawing (v.reason w) }, w.broker, [.withdraw id (v.reason w)])
    else ({ v with stage := .returned (.ok (.withdrawn (v.reason w))) }, w.broker, [])
  | .retracting =>
    let (removed, broker) := w.broker.discard id
    ({ v with stage := .abandoning removed }, broker, [])
  | .abandoning removed =>
    if removed || v.decisionAccepted then ({ v with stage := .dropped }, w.broker, [.abandon id])
    else ({ v with stage := .dropped }, w.broker, [])
  | _ => (v, w.broker, [])

def isHexDigit (c : Char) : Bool :=
  ('0' ≤ c && c ≤ '9') || ('a' ≤ c && c ≤ 'f') || ('A' ≤ c && c ≤ 'F')

/-- The port minted a preview token, or refused. -/
def bound (v : Waiter) (result : Except PortError String) : Waiter :=
  match v.stage, v.binding with
  | .binding, some _ =>
    match result with
    | .error e => { v with stage := .returned (.error (.port e)) }
    | .ok token =>
      if token.utf8ByteSize ≠ 64 || !token.toList.all isHexDigit then
        { v with stage := .returned (.error (.port
          (.invalid "approval binding token is not a 256-bit encoded value"))) }
      else { v with stage := .registering (some token) }
  | _, _ => v

/-- `present` or `present_authorized` is done. -/
def shown (w : World) (v : Waiter) (request : ApprovalRequest) (result : Except PortError Unit) :
    Waiter × BrokerState :=
  match v.stage with
  | .presenting =>
    match result with
    | .ok () => ({ v with stage := .selecting .cancel, presented := true }, w.broker)
    | .error e =>
      ({ v with stage := .returned (.error (.port e)) },
        (w.broker.discard request.approvalId).2)
  | _ => (v, w.broker)

/-- `withdraw` or `settle` is done. -/
def dismissed (v : Waiter) (result : Except PortError Unit) : Waiter :=
  match v.stage, result with
  | .withdrawing _, .error e => { v with stage := .returned (.error (.port e)) }
  | .withdrawing reason, .ok () => { v with stage := .returned (.ok (.withdrawn reason)) }
  | .settling _, .error e => { v with stage := .returned (.error (.port e)) }
  | .settling decision, .ok () => { v with stage := .returned (.ok (.decided decision false)) }
  | _, _ => v

/-- The future is dropped, before its first poll or where it awaits. The guard is dropped
before the receiver while the request is presented, and after it in the wait. -/
def drop (w : World) (v : Waiter) (request : Option ApprovalRequest) : Waiter × BrokerState :=
  match v.stage, request with
  | .unpolled, _ => ({ v with stage := .dropped }, w.broker)
  | .presenting, some request =>
    let (removed, broker) := w.broker.discard request.approvalId
    ({ v with stage := .abandoning removed }, broker)
  | .selecting .cancel, some _ => ({ v with stage := .retracting }, w.broker)
  | .withdrawing _, some _ => ({ v with stage := .dropped }, w.broker)
  | .settling _, some _ => ({ v with stage := .dropped }, w.broker)
  | _, _ => (v, w.broker)

end Waiter

namespace World

def new (timeout : Duration) (now : Timestamp) : World :=
  ⟨timeout, ⟨∅, ∅, 0⟩, now, fun _ => false, fun _ => false, [], [], [], []⟩

variable (w : World)

variable (i : Nat)

/-- One call of `request` has moved. -/
def put (v : Waiter) (broker : BrokerState) (calls : List PortCall) : World :=
  { w with waiters := w.waiters.set i v, broker := broker, port := w.port ++ calls }

def poll : World :=
  match w.waiters[i]? with
  | none => w
  | some v =>
    match v.request with
    | none =>
      let (v, broker) := v.enter w
      w.put i v broker []
    | some request =>
      let (v, broker, calls) := v.proceed w i request
      w.put i v broker calls

def bound (result : Except PortError String) : World :=
  match w.waiters[i]? with
  | none => w
  | some v => w.put i (v.bound result) w.broker []

def shown (result : Except PortError Unit) : World :=
  match w.waiters[i]? with
  | none => w
  | some v =>
    match v.request with
    | none => w
    | some request =>
      let (v, broker) := v.shown w request result
      w.put i v broker []

def dismissed (result : Except PortError Unit) : World :=
  match w.waiters[i]? with
  | none => w
  | some v => w.put i (v.dismissed result) w.broker []

def drop : World :=
  match w.waiters[i]? with
  | none => w
  | some v =>
    let (v, broker) := v.drop w v.request
    w.put i v broker []

/-! ## A decision -/

/-- `is_closed` of the responder. -/
def isClosed (responder : Nat) : Bool := !(w.waiters[responder]?).any (·.stage.listens)

/-- The checks of `resolve_inner`, in their order. -/
def checkDecision (id : ApprovalId) (decision : ApprovalDecision)
    (token : Option String) : Except ApprovalError Pending :=
  match w.broker.pending.lookup id with
  | none => .error (.unknown id)
  | some entry =>
    if w.cancelled entry.cancellation || (entry.authority.any fun a => !a.canExecute w.revoked)
        || w.isClosed entry.responder || entry.request.expiresAt ≤ w.now then
      .error (.unknown id)
    else if entry.authority.isSome && decision.scope.isRemembered then
      .error (.port (.invalid "authenticated tool approvals are restricted to this invocation"))
    else if entry.bindingToken ≠ token then .error (.unknown id)
    else .ok entry

/-- The locked section of `resolve_inner`. -/
def resolve (id : ApprovalId) (decision : ApprovalDecision) (token : Option String) : World :=
  match w.checkDecision id decision token with
  | .error e => { w with resolves := w.resolves ++ [⟨id, decision, 0, .refused e⟩] }
  | .ok entry =>
    let broker := { w.broker with pending := w.broker.pending.erase id }
    { w with
      waiters := w.waiters.modify entry.responder fun v => { v with decisionAccepted := true }
      broker := if decision.scope.isRemembered then
          broker.remember entry.request.ticket.sessionId entry.request.ticket.toolName decision
        else broker
      resolves := w.resolves ++ [⟨id, decision, entry.responder, .sending⟩] }

/-- The rest of it: the decision is sent, if anyone still listens. -/
def send (k : Nat) : World :=
  match w.resolves[k]? with
  | none => w
  | some call =>
    match call.stage with
    | .sending =>
      { w with
        waiters := w.waiters.modify call.responder fun v =>
          if v.stage.listens then { v with mailbox := .delivered call.decision } else v
        resolves := w.resolves.set k { call with stage := .done } }
    | _ => w

/-! ## Withdrawing everything -/

/-- The locked section of `withdraw_all`. The responders of the entries are dropped. -/
def withdrawAll (reason : ApprovalWithdrawal) : World :=
  { w with
    waiters := w.waiters.mapIdx fun i v =>
      if w.broker.pending.values.any (·.responder = i) then { v with mailbox := .disconnected }
      else v
    broker := { w.broker with pending := ∅ }
    sweeps := w.sweeps ++ [⟨reason, w.broker.pending.keys, false, none⟩] }

def withdrawNext (k : Nat) : World :=
  match w.sweeps[k]? with
  | none => w
  | some sweep =>
    match sweep.awaiting, sweep.drained with
    | false, id :: rest =>
      { w with
        sweeps := w.sweeps.set k { sweep with drained := rest, awaiting := true }
        port := w.port ++ [.withdraw id sweep.reason] }
    | _, _ => w

def withdrawDone (k : Nat) (result : Except PortError Unit) : World :=
  match w.sweeps[k]? with
  | none => w
  | some sweep =>
    if sweep.awaiting then
      let firstError := match sweep.firstError, result with
        | none, .error e => some (.port e)
        | firstError, _ => firstError
      { w with
        sweeps := w.sweeps.set k { sweep with awaiting := false, firstError := firstError } }
    else w

end World

/-! ## Runs -/

inductive Act where
  | request (ticket : ApprovalTicket) (authority : Option InvocationAuthority)
      (binding : Option ToolBinding) (cancel : Nat)
  | poll (waiter : Nat)
  | bound (waiter : Nat) (result : Except PortError String)
  | shown (waiter : Nat) (result : Except PortError Unit)
  | dismissed (waiter : Nat) (result : Except PortError Unit)
  | drop (waiter : Nat)
  | resolve (id : ApprovalId) (decision : ApprovalDecision) (token : Option String)
  | send (call : Nat)
  | withdrawAll (reason : ApprovalWithdrawal)
  | withdrawNext (sweep : Nat)
  | withdrawDone (sweep : Nat) (result : Except PortError Unit)
  | forget (sessionId : SessionId) (toolName : String)
  | forgetSession (sessionId : SessionId)
  | cancel (token : Nat)
  | revoke (signal : Nat)
  /-- The clock only goes forward. -/
  | advance (now : Timestamp)

def World.act (w : World) : Act → World
  | .request ticket authority binding cancel =>
    { w with waiters := w.waiters ++
        [⟨ticket, authority, binding, cancel, .unpolled, none, false, .empty, false, none⟩] }
  | .poll i => w.poll i
  | .bound i result => w.bound i result
  | .shown i result => w.shown i result
  | .dismissed i result => w.dismissed i result
  | .drop i => w.drop i
  | .resolve id decision token => w.resolve id decision token
  | .send k => w.send k
  | .withdrawAll reason => w.withdrawAll reason
  | .withdrawNext k => w.withdrawNext k
  | .withdrawDone k result => w.withdrawDone k result
  | .forget sessionId toolName => { w with broker := w.broker.forget sessionId toolName }
  | .forgetSession sessionId => { w with broker := w.broker.forgetSession sessionId }
  | .cancel token => { w with cancelled := Function.update w.cancelled token true }
  | .revoke signal => { w with revoked := Function.update w.revoked signal true }
  | .advance now => if w.now ≤ now then { w with now := now } else w

/-- Nothing is answered: what a call returns is in its stage. -/
def World.step (w : World) (a : Act) : Unit × World := ((), w.act a)

end GtaClaw.Approval
