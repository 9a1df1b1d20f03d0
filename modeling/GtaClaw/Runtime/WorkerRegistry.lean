import GtaClaw.Runtime.Ids
import GtaClaw.Lib.Table

/-!
# The worker registry

The runtime's side of the closed worker protocol. A ticket is redeemed into a
session, and every admission of a worker gets a fence of its own, so that a call
names the session it belongs to. The registry locks its state once in each
operation, after the clock was read; so an operation is one step of the state,
and the instant it works with is an argument.
-/

namespace GtaClaw.Runtime

open Lib

def workerProtocolVersion : Nat := 4

structure WorkerConfig where
  ticketTtl : Duration
  sessionTtl : Duration
  maxPayloadBytes : Nat
  allowlist : List String

structure WorkerTicket where
  workerId : WorkerId
  secret : String
  issuedAt : Timestamp
  expiresAt : Timestamp
  deriving DecidableEq

structure WorkerSession where
  workerId : WorkerId
  fence : Nat
  admittedAt : Timestamp
  expiresAt : Timestamp
  lastSequence : Nat
  deriving DecidableEq

structure WorkerCall where
  workerId : WorkerId
  fence : Nat
  sequence : Nat
  method : String
  payloadBytes : Nat
  deriving DecidableEq

inductive WorkerError where
  | unknownTicket
  | ticketExpired (expiredAt : Timestamp)
  | ticketWorkerMismatch (expected presented : WorkerId)
  | unsupportedProtocol (expected announced : Nat)
  | unknownWorker (workerId : WorkerId)
  | fenced (current presented : Nat)
  | sessionExpired (expiredAt : Timestamp)
  | methodNotAllowed (method : String)
  | replayDetected (last presented : Nat)
  | payloadTooLarge (limit presented : Nat)
  | deadlineOverflow
  deriving DecidableEq

/-- What the registry's lock protects. -/
structure RegistryState where
  tickets : Table String WorkerTicket
  sessions : Table WorkerId WorkerSession
  nextFence : Nat

namespace RegistryState

def new : RegistryState := ⟨∅, ∅, 1⟩

/-- Tickets that ran out more than a whole lifetime ago are dropped. -/
def reclaimStaleTickets (state : RegistryState) (now : Timestamp) (grace : Duration) :
    RegistryState :=
  { state with
    tickets := state.tickets.retain fun _ ticket =>
      match ticket.expiresAt.checkedAdd grace with
      | none => true
      | some reclaimAt => decide (¬ reclaimAt ≤ now) }

/-- The session of a worker, if it has this fence and still runs. One that ran out is
removed. -/
def liveSession (state : RegistryState) (workerId : WorkerId) (fence : Nat) (now : Timestamp) :
    Except WorkerError WorkerSession × RegistryState :=
  match state.sessions.lookup workerId with
  | none => (.error (.unknownWorker workerId), state)
  | some session =>
    if session.fence ≠ fence then (.error (.fenced session.fence fence), state)
    else if session.expiresAt ≤ now then
      (.error (.sessionExpired session.expiresAt),
        { state with sessions := state.sessions.erase workerId })
    else (.ok session, state)

end RegistryState

/-! ## The operations -/

namespace WorkerConfig

variable (config : WorkerConfig)

def allowsMethod (method : String) : Bool := config.allowlist.any (· == method)

def issueTicket (state : RegistryState) (issuedAt : Timestamp) (workerId : WorkerId)
    (secret : String) : Except WorkerError WorkerTicket × RegistryState :=
  match issuedAt.checkedAdd config.ticketTtl with
  | none => (.error .deadlineOverflow, state)
  | some expiresAt =>
    let ticket : WorkerTicket := ⟨workerId, secret, issuedAt, expiresAt⟩
    let state := state.reclaimStaleTickets issuedAt config.ticketTtl
    (.ok ticket, { state with tickets := state.tickets.insert secret ticket })

/-- `admit`. The ticket is used up even if it is then refused. -/
def admitWorker (state : RegistryState) (now : Timestamp) (workerId : WorkerId) (secret : String)
    (protocolVersion : Nat) : Except WorkerError WorkerSession × RegistryState :=
  if protocolVersion ≠ workerProtocolVersion then
    (.error (.unsupportedProtocol workerProtocolVersion protocolVersion), state)
  else
    match now.checkedAdd config.sessionTtl with
    | none => (.error .deadlineOverflow, state)
    | some expiresAt =>
      match state.tickets.lookup secret with
      | none => (.error .unknownTicket, state)
      | some ticket =>
        let used : RegistryState := { state with tickets := state.tickets.erase secret }
        if ticket.workerId ≠ workerId then
          (.error (.ticketWorkerMismatch ticket.workerId workerId), used)
        else if ticket.expiresAt ≤ now then
          (.error (.ticketExpired ticket.expiresAt), used)
        else
          let session : WorkerSession := ⟨workerId, state.nextFence, now, expiresAt, 0⟩
          (.ok session,
            { used with
              nextFence := saturatingAdd state.nextFence 1
              sessions := state.sessions.insert workerId session })

def heartbeat (state : RegistryState) (now : Timestamp) (workerId : WorkerId) (fence : Nat) :
    Except WorkerError WorkerSession × RegistryState :=
  match now.checkedAdd config.sessionTtl with
  | none => (.error .deadlineOverflow, state)
  | some expiresAt =>
    match state.liveSession workerId fence now with
    | (.error e, state) => (.error e, state)
    | (.ok session, state) =>
      let session : WorkerSession := { session with expiresAt := expiresAt }
      (.ok session, { state with sessions := state.sessions.insert workerId session })

def dispatch (state : RegistryState) (now : Timestamp) (call : WorkerCall) :
    Except WorkerError WorkerSession × RegistryState :=
  if !config.allowsMethod call.method then (.error (.methodNotAllowed call.method), state)
  else if call.payloadBytes > config.maxPayloadBytes then
    (.error (.payloadTooLarge config.maxPayloadBytes call.payloadBytes), state)
  else
    match state.liveSession call.workerId call.fence now with
    | (.error e, state) => (.error e, state)
    | (.ok session, state) =>
      if call.sequence ≤ session.lastSequence then
        (.error (.replayDetected session.lastSequence call.sequence), state)
      else
        let session : WorkerSession := { session with lastSequence := call.sequence }
        (.ok session, { state with sessions := state.sessions.insert call.workerId session })

end WorkerConfig

namespace RegistryState

def evict (state : RegistryState) (workerId : WorkerId) : Option WorkerSession × RegistryState :=
  (state.sessions.lookup workerId, { state with sessions := state.sessions.erase workerId })

/-- The session of a worker, if it still runs. One that ran out is removed. -/
def session (state : RegistryState) (now : Timestamp) (workerId : WorkerId) :
    Option WorkerSession × RegistryState :=
  match (state.sessions.lookup workerId).filter fun session => decide (¬ session.expiresAt ≤ now) with
  | some live => (some live, state)
  | none => (none, { state with sessions := state.sessions.erase workerId })

/-- `sessions`: those that still run, by fence. -/
def listSessions (state : RegistryState) (now : Timestamp) : List WorkerSession × RegistryState :=
  let live := state.sessions.retain fun _ session => decide (¬ session.expiresAt ≤ now)
  (live.values.mergeSort fun a b => a.fence ≤ b.fence, { state with sessions := live })

def outstandingTickets (state : RegistryState) (now : Timestamp) : Nat × RegistryState :=
  let tickets := state.tickets.retain fun _ ticket => decide (¬ ticket.expiresAt ≤ now)
  (tickets.values.length, { state with tickets := tickets })

end RegistryState

/-! ## Runs -/

/-- An operation, with the instant at which it read the clock. -/
inductive RegistryOp where
  | issueTicket (now : Timestamp) (workerId : WorkerId) (secret : String)
  | admitWorker (now : Timestamp) (workerId : WorkerId) (secret : String) (protocolVersion : Nat)
  | heartbeat (now : Timestamp) (workerId : WorkerId) (fence : Nat)
  | dispatch (now : Timestamp) (call : WorkerCall)
  | evict (workerId : WorkerId)
  | session (now : Timestamp) (workerId : WorkerId)
  | listSessions (now : Timestamp)
  | outstandingTickets (now : Timestamp)

inductive RegistryAnswer where
  | ticket (result : Except WorkerError WorkerTicket)
  | session (result : Except WorkerError WorkerSession)
  | found (session : Option WorkerSession)
  | sessions (sessions : List WorkerSession)
  | count (tickets : Nat)

def WorkerConfig.step (config : WorkerConfig) (state : RegistryState) :
    RegistryOp → RegistryAnswer × RegistryState
  | .issueTicket now workerId secret => (config.issueTicket state now workerId secret).map .ticket id
  | .admitWorker now workerId secret protocolVersion =>
    (config.admitWorker state now workerId secret protocolVersion).map .session id
  | .heartbeat now workerId fence => (config.heartbeat state now workerId fence).map .session id
  | .dispatch now call => (config.dispatch state now call).map .session id
  | .evict workerId => (state.evict workerId).map .found id
  | .session now workerId => (state.session now workerId).map .found id
  | .listSessions now => (state.listSessions now).map .sessions id
  | .outstandingTickets now => (state.outstandingTickets now).map .count id

end GtaClaw.Runtime
