import GtaClaw.Runtime.Ids

/-!
# The worker admission controller

One controller owns the admission state of a Gateway: the generation that is live
for each worker, the tickets that wait to be redeemed, those that were, and the
sessions with the calls they made. A ticket is minted for one generation and
redeemed into a session of that generation; a call is screened against its
session.

The clock readings, the random bytes and the decoders of the two wire frames come
from outside and are arguments of the operations that read them.
-/

namespace GtaClaw.Worker

open GtaClaw.Runtime (checkedAdd)

/-! ## Identifiers -/

def maxIdentifierBytes : Nat := 128

inductive IdentifierError where
  | empty
  | tooLong (limit actual : Nat)
  | forbiddenByte (index : Nat) (byte : UInt8)
  deriving DecidableEq, Repr

def bytesOf (value : String) : List UInt8 := value.toByteArray.data.toList

variable (byte : UInt8)

def isAsciiDigit : Bool := 48 ≤ byte && byte ≤ 57
def isAsciiLowercase : Bool := 97 ≤ byte && byte ≤ 122
def isAsciiUppercase : Bool := 65 ≤ byte && byte ≤ 90
def isAsciiAlphanumeric : Bool :=
  isAsciiDigit byte || isAsciiLowercase byte || isAsciiUppercase byte

/-- The first byte that is not accepted, with its offset. -/
def firstForbidden (accepted : UInt8 → Bool) : List UInt8 → Nat → Option (Nat × UInt8)
  | [], _ => none
  | byte :: rest, index =>
    if accepted byte then firstForbidden accepted rest (index + 1) else some (index, byte)

/-- ASCII letters and digits, `-`, `_`, `.` and `:`. -/
def isIdentifierByte : Bool :=
  isAsciiAlphanumeric byte || byte == 45 || byte == 95 || byte == 46 || byte == 58

def validate (value : String) : Except IdentifierError Unit :=
  let bytes := bytesOf value
  if bytes.isEmpty then .error .empty
  else if bytes.length > maxIdentifierBytes then .error (.tooLong maxIdentifierBytes bytes.length)
  else
    match firstForbidden isIdentifierByte bytes 0 with
    | some (index, byte) => .error (.forbiddenByte index byte)
    | none => .ok ()

/-- The three identifiers are one family; `what` tells the members apart. -/
structure Identifier (what : String) where
  asStr : String
  valid : validate asStr = .ok ()
  deriving DecidableEq

def Identifier.new (what value : String) : Except IdentifierError (Identifier what) :=
  match h : validate value with
  | .ok () => .ok ⟨value, h⟩
  | .error e => .error e

abbrev WorkerId := Identifier "worker identity"
abbrev TicketId := Identifier "admission ticket identity"
abbrev CallId := Identifier "worker RPC call identity"

/-! ## Methods -/

def maxMethodNameBytes : Nat := 128

inductive MethodNameError where
  | empty
  | tooLong (limit actual : Nat)
  | emptySegment (segment : Nat)
  | forbiddenByte (index : Nat) (byte : UInt8)
  deriving DecidableEq, Repr

def isMethodByte : Bool := isAsciiLowercase byte || isAsciiDigit byte || byte == 46 || byte == 95

def validateMethod (value : String) : Except MethodNameError Unit :=
  let bytes := bytesOf value
  if bytes.isEmpty then .error .empty
  else if bytes.length > maxMethodNameBytes then
    .error (.tooLong maxMethodNameBytes bytes.length)
  else
    match firstForbidden isMethodByte bytes 0 with
    | some (index, byte) => .error (.forbiddenByte index byte)
    | none =>
      match (bytes.splitOn 46).findIdx? List.isEmpty with
      | some segment => .error (.emptySegment segment)
      | none => .ok ()

structure MethodName where
  asStr : String
  valid : validateMethod asStr = .ok ()
  deriving DecidableEq

/-- An exact, closed set of names. -/
structure MethodAllowlist where
  methods : Finset MethodName
  deriving DecidableEq

/-- Is the exact name a member? -/
def MethodAllowlist.admits (allowed : MethodAllowlist) (method : MethodName) : Bool :=
  decide (method ∈ allowed.methods)

/-! ## Generations -/

/-- A generation of one worker. Zero is no generation. -/
structure FencingToken where
  get : Nat
  positive : get ≠ 0
  deriving DecidableEq

theorem FencingToken.ext {a b : FencingToken} (h : a.get = b.get) : a = b := by
  cases a
  cases b
  cases h
  rfl

def FencingToken.new (generation : Nat) : Option FencingToken :=
  if h : generation = 0 then none else some ⟨generation, h⟩

inductive FencingError where
  | zeroGeneration
  | neverAdmitted (worker : WorkerId)
  | stale (presented current : Nat)
  | fromFuture (presented current : Nat)
  | generationOverflow (worker : WorkerId)
  deriving DecidableEq

structure GenerationLedger where
  current : WorkerId → Option FencingToken

def GenerationLedger.empty : GenerationLedger := ⟨fun _ => none⟩

def GenerationLedger.openGeneration (ledger : GenerationLedger) (worker : WorkerId) :
    Except FencingError FencingToken × GenerationLedger :=
  match ledger.current worker with
  | some current =>
    match checkedAdd current.get 1 with
    | none => (.error (.generationOverflow worker), ledger)
    | some next =>
      match FencingToken.new next with
      | none => (.error .zeroGeneration, ledger)
      | some token => (.ok token, ⟨Function.update ledger.current worker (some token)⟩)
  | none =>
    match FencingToken.new 1 with
    | none => (.error .zeroGeneration, ledger)
    | some token => (.ok token, ⟨Function.update ledger.current worker (some token)⟩)

def GenerationLedger.verify (ledger : GenerationLedger) (worker : WorkerId)
    (presented : FencingToken) : Except FencingError Unit :=
  match ledger.current worker with
  | none => .error (.neverAdmitted worker)
  | some current =>
    if presented.get = current.get then .ok ()
    else if presented.get < current.get then .error (.stale presented.get current.get)
    else .error (.fromFuture presented.get current.get)

/-! ## Tickets and sessions -/

def admissionSecretBytes : Nat := 32
def ticketIdBytes : Nat := 16

abbrev AdmissionSecret := Vector UInt8 admissionSecretBytes

/-- The source of randomness could not produce bytes. -/
structure SecretSourceError where
  deriving DecidableEq, Repr

def hexDigits : List Char := "0123456789abcdef".toList

def encodeHex (bytes : List UInt8) : String :=
  String.ofList (bytes.flatMap fun byte =>
    [hexDigits.getD (byte.toNat / 16) '0', hexDigits.getD (byte.toNat % 16) '0'])

structure AdmissionTicket where
  ticketId : TicketId
  workerId : WorkerId
  fencingToken : FencingToken
  issuedAtMs : Nat
  expiresAtMs : Nat
  allowedMethods : MethodAllowlist
  deriving DecidableEq

structure IssuedAdmission where
  ticket : AdmissionTicket
  secret : AdmissionSecret
  deriving DecidableEq

structure AdmissionRequest where
  ticketId : TicketId
  workerId : WorkerId
  fencingToken : FencingToken
  secret : AdmissionSecret
  deriving DecidableEq

structure SessionId where
  get : Nat
  deriving DecidableEq, Repr

structure AdmittedSession where
  session : SessionId
  workerId : WorkerId
  fencingToken : FencingToken
  expiresAtMs : Nat
  allowedMethods : MethodAllowlist
  deriving DecidableEq

/-- A call. Its payload is opaque here. -/
structure WorkerCall (Payload : Type) where
  callId : CallId
  method : MethodName
  payload : Payload

structure CallAccepted (Payload : Type) where
  session : SessionId
  callId : CallId
  method : MethodName
  payload : Payload

structure PendingTicket where
  ticket : AdmissionTicket
  secret : AdmissionSecret

structure SessionState where
  workerId : WorkerId
  fencingToken : FencingToken
  allowedMethods : MethodAllowlist
  expiresAtMs : Nat
  acceptedCalls : Finset CallId
  closed : Bool

/-! ## Refusals -/

inductive LimitError where
  | zeroLimit (name : String)
  deriving DecidableEq, Repr

inductive IssueError where
  | zeroTimeToLive
  | expiryOverflow (nowMs ttlMs : Nat)
  | fencing (error : FencingError)
  | secretSource (error : SecretSourceError)
  | ticketIdCollision (ticketId : TicketId)

inductive AdmissionRejection where
  | payloadTooLarge (limit actual : Nat)
  | malformed (message : String)
  | unknownTicket (ticketId : TicketId)
  | ticketAlreadyRedeemed (ticketId : TicketId)
  | secretMismatch (ticketId : TicketId)
  | workerIdentityMismatch (expected presented : WorkerId)
  | notYetValid (issuedAtMs nowMs : Nat)
  | expired (expiresAtMs nowMs : Nat)
  | fenced (error : FencingError)

inductive CallRejection where
  | payloadTooLarge (limit actual : Nat)
  | malformed (message : String)
  | unknownSession (session : SessionId)
  | sessionClosed (session : SessionId)
  | sessionFenced (error : FencingError)
  | sessionExpired (expiresAtMs nowMs : Nat)
  | duplicateCall (callId : CallId)
  | methodNotAllowed (method : MethodName)

/-! ## The controller -/

structure PayloadLimits where
  maxAdmissionBytes : Nat
  maxCallBytes : Nat
  deriving DecidableEq, Repr

def PayloadLimits.validate (limits : PayloadLimits) : Except LimitError Unit :=
  if limits.maxAdmissionBytes = 0 then .error (.zeroLimit "max_admission_bytes")
  else if limits.maxCallBytes = 0 then .error (.zeroLimit "max_call_bytes")
  else .ok ()

structure AdmissionController where
  limits : PayloadLimits
  generations : GenerationLedger
  pending : TicketId → Option PendingTicket
  redeemed : Finset TicketId
  sessions : SessionId → Option SessionState
  nextSession : Nat

/-- What an operation comes to. A failed `expect` unwinds out of it, with what it had
written so far in place. -/
inductive Outcome (ε α : Type) where
  | returned (result : Except ε α)
  | panicked

namespace AdmissionController

def new (limits : PayloadLimits) : Except LimitError AdmissionController := do
  limits.validate
  return ⟨limits, .empty, fun _ => none, ∅, fun _ => none, 1⟩

/-- A ticket for one worker, in a fresh generation of it. -/
def issue (c : AdmissionController) (nowMs : Nat)
    (identity : Except SecretSourceError (Vector UInt8 ticketIdBytes))
    (secret : Except SecretSourceError AdmissionSecret)
    (worker : WorkerId) (ttlMs : Nat) (allowedMethods : MethodAllowlist) :
    Outcome IssueError IssuedAdmission × AdmissionController :=
  if ttlMs = 0 then (.returned (.error .zeroTimeToLive), c)
  else
    match checkedAdd nowMs ttlMs with
    | none => (.returned (.error (.expiryOverflow nowMs ttlMs)), c)
    | some expiresAtMs =>
      match identity with
      | .error e => (.returned (.error (.secretSource e)), c)
      | .ok identityBytes =>
        match Identifier.new "admission ticket identity" (encodeHex identityBytes.toList) with
        | .error _ => (.panicked, c)
        | .ok ticketId =>
          if (c.pending ticketId).isSome ∨ ticketId ∈ c.redeemed then
            (.returned (.error (.ticketIdCollision ticketId)), c)
          else
            match secret with
            | .error e => (.returned (.error (.secretSource e)), c)
            | .ok secret =>
              match c.generations.openGeneration worker with
              | (.error e, _) => (.returned (.error (.fencing e)), c)
              | (.ok fencingToken, generations) =>
                let ticket : AdmissionTicket :=
                  ⟨ticketId, worker, fencingToken, nowMs, expiresAtMs, allowedMethods⟩
                (.returned (.ok ⟨ticket, secret⟩),
                  { c with
                    generations := generations
                    pending := Function.update c.pending ticketId (some ⟨ticket, secret⟩) })

/-- A fresh generation and no ticket: the worker is evicted. -/
def fence (c : AdmissionController) (worker : WorkerId) :
    Except FencingError FencingToken × AdmissionController :=
  match c.generations.openGeneration worker with
  | (answer, generations) => (answer, { c with generations := generations })

/-- The checks of `admit`, in their order. -/
def screen (c : AdmissionController) (nowMs : Nat) (request : AdmissionRequest) :
    Except AdmissionRejection PendingTicket :=
  if request.ticketId ∈ c.redeemed then .error (.ticketAlreadyRedeemed request.ticketId)
  else
    match c.pending request.ticketId with
    | none => .error (.unknownTicket request.ticketId)
    | some pending =>
      -- a wrong secret does not burn the ticket
      if pending.secret ≠ request.secret then .error (.secretMismatch request.ticketId)
      else if pending.ticket.workerId ≠ request.workerId then
        .error (.workerIdentityMismatch pending.ticket.workerId request.workerId)
      else if nowMs < pending.ticket.issuedAtMs then
        .error (.notYetValid pending.ticket.issuedAtMs nowMs)
      else if nowMs ≥ pending.ticket.expiresAtMs then
        .error (.expired pending.ticket.expiresAtMs nowMs)
      else
        match c.generations.verify pending.ticket.workerId request.fencingToken with
        | .error e => .error (.fenced e)
        | .ok () =>
          match c.generations.verify pending.ticket.workerId pending.ticket.fencingToken with
          | .error e => .error (.fenced e)
          | .ok () => .ok pending

/-- `admit`: redeem a ticket into a session. -/
def admitWorker (c : AdmissionController) (nowMs : Nat) (request : AdmissionRequest) :
    Outcome AdmissionRejection AdmittedSession × AdmissionController :=
  match c.screen nowMs request with
  | .error e => (.returned (.error e), c)
  | .ok pending =>
    let burned : AdmissionController :=
      { c with
        pending := Function.update c.pending request.ticketId none
        redeemed := insert request.ticketId c.redeemed }
    let session : SessionId := ⟨c.nextSession⟩
    -- the handles are exhausted: the ticket is burned and there is no session
    match checkedAdd c.nextSession 1 with
    | none => (.panicked, burned)
    | some nextSession =>
      (.returned (.ok ⟨session, pending.ticket.workerId, pending.ticket.fencingToken,
          pending.ticket.expiresAtMs, pending.ticket.allowedMethods⟩),
        { burned with
          nextSession := nextSession
          sessions := Function.update c.sessions session (some
            ⟨pending.ticket.workerId, pending.ticket.fencingToken,
              pending.ticket.allowedMethods, pending.ticket.expiresAtMs, ∅, false⟩) })

/-- `admit_encoded`: the length is checked before the frame is decoded. -/
def admitEncoded (decode : List UInt8 → Except String AdmissionRequest)
    (c : AdmissionController) (nowMs : Nat) (frame : List UInt8) :
    Outcome AdmissionRejection AdmittedSession × AdmissionController :=
  if frame.length > c.limits.maxAdmissionBytes then
    (.returned (.error (.payloadTooLarge c.limits.maxAdmissionBytes frame.length)), c)
  else
    match decode frame with
    | .error message => (.returned (.error (.malformed message)), c)
    | .ok request => c.admitWorker nowMs request

variable {Payload : Type}

/-- Screen a call of a session. Only an accepted call uses up its identifier. -/
def call (c : AdmissionController) (nowMs : Nat) (session : SessionId) (call : WorkerCall Payload) :
    Except CallRejection (CallAccepted Payload) × AdmissionController :=
  match c.sessions session with
  | none => (.error (.unknownSession session), c)
  | some state =>
    if state.closed then (.error (.sessionClosed session), c)
    else
      match c.generations.verify state.workerId state.fencingToken with
      | .error e => (.error (.sessionFenced e), c)
      | .ok () =>
        if nowMs ≥ state.expiresAtMs then
          (.error (.sessionExpired state.expiresAtMs nowMs), c)
        else if call.callId ∈ state.acceptedCalls then
          (.error (.duplicateCall call.callId), c)
        else if !state.allowedMethods.admits call.method then
          (.error (.methodNotAllowed call.method), c)
        else
          (.ok ⟨session, call.callId, call.method, call.payload⟩,
            { c with
              sessions := Function.update c.sessions session (some
                { state with acceptedCalls := insert call.callId state.acceptedCalls }) })

/-- `call_encoded`: the length is checked before the frame is decoded. -/
def callEncoded (decode : List UInt8 → Except String (WorkerCall Payload))
    (c : AdmissionController) (nowMs : Nat) (session : SessionId) (frame : List UInt8) :
    Except CallRejection (CallAccepted Payload) × AdmissionController :=
  if frame.length > c.limits.maxCallBytes then
    (.error (.payloadTooLarge c.limits.maxCallBytes frame.length), c)
  else
    match decode frame with
    | .error message => (.error (.malformed message), c)
    | .ok decoded => c.call nowMs session decoded

/-- `false` if the session was already closed or unknown. -/
def close (c : AdmissionController) (session : SessionId) : Bool × AdmissionController :=
  match c.sessions session with
  | none => (false, c)
  | some state =>
    if state.closed then (false, c)
    else
      (true, { c with
        sessions := Function.update c.sessions session (some { state with closed := true }) })

end AdmissionController

/-! ## Runs -/

/-- One operation, with what it reads from outside. -/
inductive Op (Payload : Type) where
  | issue (nowMs : Nat) (identity : Except SecretSourceError (Vector UInt8 ticketIdBytes))
      (secret : Except SecretSourceError AdmissionSecret) (worker : WorkerId) (ttlMs : Nat)
      (allowedMethods : MethodAllowlist)
  | fence (worker : WorkerId)
  | admitWorker (nowMs : Nat) (request : AdmissionRequest)
  | admitEncoded (nowMs : Nat) (frame : List UInt8)
  | call (nowMs : Nat) (session : SessionId) (call : WorkerCall Payload)
  | callEncoded (nowMs : Nat) (session : SessionId) (frame : List UInt8)
  | close (session : SessionId)

inductive Answer (Payload : Type) where
  | issued (outcome : Outcome IssueError IssuedAdmission)
  | fenced (result : Except FencingError FencingToken)
  | admitted (outcome : Outcome AdmissionRejection AdmittedSession)
  | called (result : Except CallRejection (CallAccepted Payload))
  | closed (closed : Bool)

/-- The decoders of the two wire frames. -/
structure Wire (Payload : Type) where
  admission : List UInt8 → Except String AdmissionRequest
  call : List UInt8 → Except String (WorkerCall Payload)

def step {Payload : Type} (wire : Wire Payload) (c : AdmissionController) :
    Op Payload → Answer Payload × AdmissionController
  | .issue nowMs identity secret worker ttlMs allowedMethods =>
    match c.issue nowMs identity secret worker ttlMs allowedMethods with
    | (outcome, c) => (.issued outcome, c)
  | .fence worker =>
    match c.fence worker with
    | (result, c) => (.fenced result, c)
  | .admitWorker nowMs request =>
    match c.admitWorker nowMs request with
    | (outcome, c) => (.admitted outcome, c)
  | .admitEncoded nowMs frame =>
    match c.admitEncoded wire.admission nowMs frame with
    | (outcome, c) => (.admitted outcome, c)
  | .call nowMs session call =>
    match c.call nowMs session call with
    | (result, c) => (.called result, c)
  | .callEncoded nowMs session frame =>
    match c.callEncoded wire.call nowMs session frame with
    | (result, c) => (.called result, c)
  | .close session =>
    match c.close session with
    | (closed, c) => (.closed closed, c)

end GtaClaw.Worker
