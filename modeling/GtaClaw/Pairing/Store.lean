import GtaClaw.Lib.Run
import GtaClaw.Lib.Table
import GtaClaw.Gateway.Events

/-!
# The durable pairing store

Grants of devices live in three places: the pairing file, a map of what was last
written to it, and the directory that live connections are checked against. A
device asks for a grant by a pending request, which an operator approves or
rejects. All stores that are open on one file share one runtime.

A runtime has three locks. The mutation gate is held by an approval, a removal or
the opening of a sibling store from its start to its end, so at most one of them is
under way, and `Mutation` says how far it has come. The lock of the pending requests
and that of the pairings are held for short sections. Every section is one step,
except that a commit is cut finer: the write of the file, every call to the
directory, which has a lock of its own, and the replacement of the map are steps.

The clock, the outcome of reading and writing the file, and how often stores of
other files take a number from the process-wide sequence are up to the environment.
-/

namespace GtaClaw.Pairing

open Lib
open Gateway (Role OperatorScope)

def pairingSchemaVersion : Nat := 1
def maxPairings : Nat := 4096
def maxPendingPairings : Nat := 4096
def maxScopesPerPairing : Nat := 6
def pendingPairingTtlMs : Nat := 10 * 60 * 1000

/-! ## Scopes and grants -/

def sortUnstable (scopes : List OperatorScope) : List OperatorScope :=
  scopes.insertionSort fun a b => a.ctorIdx ≤ b.ctorIdx

/-- Sorted and without repetitions, which are next to each other then. -/
def canonical (scopes : List OperatorScope) : List OperatorScope := (sortUnstable scopes).dedup

structure Grant where
  role : Role
  scopes : List OperatorScope
  deriving DecidableEq, Repr

def Grant.new (role : Role) (scopes : List OperatorScope) : Grant := ⟨role, canonical scopes⟩

structure StoredPairing where
  deviceId : String
  role : Role
  scopes : List OperatorScope
  deriving DecidableEq, Repr

def StoredPairing.grant (pairing : StoredPairing) : Grant := .new pairing.role pairing.scopes

/-- The two numbers, each of fixed width, that the text of a request id is made of. -/
structure RequestId where
  timestamp : Nat
  sequence : Nat
  deriving DecidableEq, Repr

structure StoredPendingPairing where
  requestId : RequestId
  deviceId : String
  role : Role
  scopes : List OperatorScope
  createdAtMs : Nat
  refreshedAtMs : Nat
  deriving DecidableEq, Repr

/-! ## The directory -/

structure DeviceDirectory where
  generation : Nat
  grants : Table String Grant

namespace DeviceDirectory

def new : DeviceDirectory := ⟨0, ∅⟩

variable (devices : DeviceDirectory)

def pair (deviceId : String) (grant : Grant) : DeviceDirectory :=
  ⟨devices.generation + 1, devices.grants.insert deviceId grant⟩

def revoke (deviceId : String) : DeviceDirectory :=
  if (devices.grants.lookup deviceId).isSome then
    ⟨devices.generation + 1, devices.grants.erase deviceId⟩
  else devices

def currentGrant (deviceId : String) : Option Grant := devices.grants.lookup deviceId

def len : Nat := devices.grants.entries.length

end DeviceDirectory

/-- One call to the directory. -/
inductive DirectoryCall where
  | revoke (deviceId : String)
  | pair (deviceId : String) (grant : Grant)

def DirectoryCall.on : DirectoryCall → DeviceDirectory → DeviceDirectory
  | .revoke deviceId, devices => devices.revoke deviceId
  | .pair deviceId grant, devices => devices.pair deviceId grant

/-- The calls that take the directory from one map of pairings to another, in order. -/
def reconcilePairingDirectory (previous current : Table String StoredPairing)
    (preferredDevice : Option String) : List DirectoryCall :=
  (previous.keys.filter fun deviceId => !(current.lookup deviceId).isSome).map .revoke
    ++ (current.retain fun deviceId pairing =>
        preferredDevice != some deviceId && previous.lookup deviceId != some pairing).entries.map
      fun e => .pair e.1 e.2.grant

/-! ## The file -/

structure PairingDocument where
  schemaVersion : Nat
  pairings : List StoredPairing

def validDeviceId (value : String) : Bool :=
  value.utf8ByteSize == 64 &&
    value.toList.all fun c => ('0' ≤ c && c ≤ '9') || ('a' ≤ c && c ≤ 'f')

def validatePairing (pairing : StoredPairing) : Except String Unit :=
  if !validDeviceId pairing.deviceId || pairing.role == .worker then
    .error "gateway pairing file contains an invalid grant"
  else if pairing.scopes.length > maxScopesPerPairing then
    .error "gateway pairing file contains too many scopes"
  else if (canonical pairing.scopes).length != pairing.scopes.length then
    .error "gateway pairing file contains duplicate scopes"
  else if pairing.role == .node && !pairing.scopes.isEmpty then
    .error "gateway node pairing carries operator scopes"
  else .ok ()

/-- What is kept of an entry of the file. -/
def StoredPairing.sorted (pairing : StoredPairing) : StoredPairing :=
  { pairing with scopes := sortUnstable pairing.scopes }

variable (pairings : Table String StoredPairing)

def loadPairing (pairing : StoredPairing) : Except String (Table String StoredPairing) := do
  validatePairing pairing
  if (pairings.lookup pairing.deviceId).isSome then
    .error "gateway pairing file contains a duplicate device"
  else .ok (pairings.insert pairing.deviceId pairing.sorted)

/-- The document of the file, or the error of reading or decoding it. -/
def loadPairings (read : Except String PairingDocument) :
    Except String (Table String StoredPairing) := do
  let document ← read
  if document.schemaVersion != pairingSchemaVersion then
    .error "gateway pairing file schema is unsupported"
  else if document.pairings.length > maxPairings then
    .error "gateway pairing file contains too many grants"
  else document.pairings.foldlM loadPairing ∅

def PairingDocument.entry (document : PairingDocument) (deviceId : String) : Option StoredPairing :=
  document.pairings.find? fun pairing => pairing.deviceId == deviceId

/-! ## The runtime -/

inductive PortErrorKind where
  | invalidRequest
  | unavailable
  deriving DecidableEq, Repr

structure PortError where
  kind : PortErrorKind
  message : String
  deriving DecidableEq, Repr

/-- What the gate is held for, once the file was read. -/
inductive Purpose where
  | approval (node : Bool) (pending : StoredPendingPairing) (pairing : StoredPairing)
  | removal (node : Bool) (deviceId : String)
  | opening

/-- How far the holder of the gate has come. -/
inductive Mutation where
  /-- The request has been moved to `approving`. -/
  | reserved (node : Bool) (pending : StoredPendingPairing)
  /-- The new pairings are made up, and the lock of the pairings is next. -/
  | loaded (candidate : Table String StoredPairing) (purpose : Purpose)
  /-- The file is written. These calls to the directory are left; the last one returned
  `generation`. -/
  | publishing (calls : List DirectoryCall) (generation : Nat)
      (candidate : Table String StoredPairing) (warnings : Nat) (purpose : Purpose)
  /-- An approval took effect; the pending requests are left to clear. -/
  | completing (node : Bool) (requestId : RequestId) (pairing : StoredPairing) (generation : Nat)
      (warnings : Nat)
  /-- A removal took effect; the pending requests are left to clear. -/
  | dropping (node : Bool) (deviceId : String) (warnings : Nat)
  /-- An approval failed; its request has to be put back. -/
  | restoring (pending : StoredPendingPairing) (error : PortError)

structure Runtime where
  file : PairingDocument
  pairings : Table String StoredPairing
  devices : DeviceDirectory
  queued : Table RequestId StoredPendingPairing
  approving : Table RequestId StoredPendingPairing
  durabilityWarnings : Nat
  sequence : Nat
  mutation : Option Mutation

/-- What happened to requests and devices. -/
inductive Event where
  | recorded (request : StoredPendingPairing)
  | approved (request : StoredPendingPairing)
  | rejected (requestId : RequestId)
  | expired (requestId : RequestId)
  | removed (deviceId : String)
  deriving DecidableEq

inductive PendingRegistration where
  | granted
  | pending (requestId : RequestId)
  deriving DecidableEq, Repr

structure ApprovalPayload where
  requestId : RequestId
  generation : Nat
  durable : Bool
  node : Bool
  subject : StoredPairing
  deriving DecidableEq, Repr

structure RejectionPayload where
  requestId : RequestId
  node : Bool
  deviceId : String
  deriving DecidableEq, Repr

structure RemovalPayload where
  removed : Bool
  durable : Bool
  node : Bool
  deviceId : String
  deriving DecidableEq, Repr

inductive Reply where
  /-- The gate is held by another call, or its holder is not at this point. -/
  | blocked
  /-- The call goes on with its next section. -/
  | running
  | registered (result : Except String PendingRegistration)
  | approved (result : Except PortError ApprovalPayload)
  | rejected (result : Except PortError RejectionPayload)
  | removed (result : Except PortError RemovalPayload)
  | opened (result : Except String Unit)
  | listedPending (pending : List StoredPendingPairing)
  | listedPaired (paired : List StoredPairing) (durabilityWarnings : Nat)

structure Outcome where
  reply : Reply
  events : List Event

namespace Runtime

def isFresh (nowMs : Nat) (pending : StoredPendingPairing) : Bool :=
  nowMs - pending.refreshedAtMs ≤ pendingPairingTtlMs

variable (rt : Runtime)

/-- `prune_pending`, under the lock of the pending requests. -/
def prunePending (nowMs : Nat) : Runtime :=
  { rt with queued := rt.queued.retain fun _ pending => isFresh nowMs pending }

/-- What `prunePending` drops. -/
def expirations (nowMs : Nat) : List Event :=
  (rt.queued.retain fun _ pending => !isFresh nowMs pending).keys.map .expired

variable (deviceId : String)

def grantSatisfies (role : Role) (scopes : List OperatorScope) : Bool :=
  match rt.devices.currentGrant deviceId with
  | some grant => grant.role == role && scopes.all grant.scopes.contains
  | none => false

def validatePendingFields (role : Role) (scopes : List OperatorScope) : Except String Unit :=
  if !validDeviceId deviceId || role == .worker then
    .error "gateway pairing request contains an invalid grant"
  else if scopes.length > maxScopesPerPairing then
    .error "gateway pairing file contains too many pending scopes"
  else if (canonical scopes).length != scopes.length then
    .error "gateway pairing file contains duplicate pending scopes"
  else if role == .node && !scopes.isEmpty then
    .error "gateway pending node pairing carries operator scopes"
  else .ok ()

/-- The part of `record_pending` before its lock: a reply if it ends there. -/
def recordPendingUnlocked (role : Role)
    (scopes : List OperatorScope) : Option (Except String PendingRegistration) :=
  match validatePendingFields deviceId role (canonical scopes) with
  | .error error => some (.error error)
  | .ok () => if rt.grantSatisfies deviceId role (canonical scopes) then some (.ok .granted) else none

def asks (role : Role) (scopes : List OperatorScope) (existing : StoredPendingPairing) : Bool :=
  existing.deviceId == deviceId && existing.role == role && existing.scopes == scopes

def newRequest (role : Role) (scopes : List OperatorScope)
    (nowMs timestamp : Nat) : StoredPendingPairing :=
  ⟨⟨timestamp, rt.sequence⟩, deviceId, role, scopes, nowMs, nowMs⟩

/-- The locked part of `record_pending`, once expired requests are gone. -/
def recordPendingLocked (role : Role) (scopes : List OperatorScope) (nowMs timestamp : Nat) :
    Except String PendingRegistration × List Event × Runtime :=
  if rt.grantSatisfies deviceId role scopes then (.ok .granted, [], rt)
  else if (rt.devices.currentGrant deviceId).isNone && decide (rt.devices.len ≥ maxPairings) then
    (.error "gateway pairing capacity is exhausted", [], rt)
  else
    match rt.queued.values.find? (asks deviceId role scopes) with
    | some existing =>
      (.ok (.pending existing.requestId), [],
        { rt with
          queued := rt.queued.insert existing.requestId
            { existing with refreshedAtMs := nowMs } })
    | none =>
      match rt.approving.values.find? (asks deviceId role scopes) with
      | some existing => (.ok (.pending existing.requestId), [], rt)
      | none =>
        if rt.queued.entries.length + rt.approving.entries.length ≥ maxPendingPairings then
          (.error "gateway pending pairing capacity is exhausted", [], rt)
        else
          let request := rt.newRequest deviceId role scopes nowMs timestamp
          (.ok (.pending request.requestId), [.recorded request],
            { rt with
              queued := rt.queued.insert request.requestId request
              sequence := rt.sequence + 1 })

def recordPending (role : Role) (scopes : List OperatorScope)
    (nowMs timestamp : Nat) : Outcome × Runtime :=
  match validatePendingFields deviceId role (canonical scopes) with
  | .error error => (⟨.registered (.error error), []⟩, rt)
  | .ok () =>
    let (result, events, rt') :=
      (rt.prunePending nowMs).recordPendingLocked deviceId role (canonical scopes) nowMs timestamp
    (⟨.registered result, rt.expirations nowMs ++ events⟩, rt')

/-- The first section of `list`. -/
def listPending (node : Bool) (nowMs : Nat) : Outcome × Runtime :=
  (⟨.listedPending ((rt.prunePending nowMs).queued.values.filter fun pending =>
      !node || pending.role == .node), rt.expirations nowMs⟩, rt.prunePending nowMs)

/-- The rest of `list`. -/
def listPaired (node : Bool) : Outcome × Runtime :=
  (⟨.listedPaired (rt.pairings.values.filter fun pairing => !node || pairing.role == .node)
      rt.durabilityWarnings, []⟩, rt)

/-- `reject`, once expired requests are gone. -/
def rejectLocked (node : Bool) (requestId : RequestId) :
    Except PortError RejectionPayload × List Event × Runtime :=
  match rt.queued.lookup requestId with
  | none => (.error ⟨.invalidRequest, "unknown requestId"⟩, [], rt)
  | some pending =>
    if node && pending.role != .node then
      (.error ⟨.invalidRequest,
        "pair rejection request belongs to a different pairing surface"⟩, [], rt)
    else
      (.ok ⟨requestId, node, pending.deviceId⟩, [.rejected requestId],
        { rt with queued := rt.queued.erase requestId })

/-- The request id is what the parameters hold, if they hold one in canonical form and nothing
else; the same goes for `approve`. -/
def reject (node : Bool) (param : Option RequestId) (nowMs : Nat) : Outcome × Runtime :=
  match param with
  | none =>
    (⟨.rejected (.error ⟨.invalidRequest, "pair rejection requires a canonical requestId"⟩), []⟩,
      rt)
  | some requestId =>
    let (result, events, rt') := (rt.prunePending nowMs).rejectLocked node requestId
    (⟨.rejected result, rt.expirations nowMs ++ events⟩, rt')

/-! ### Approving -/

/-- The first section of `approve`, once the gate is taken and expired requests are gone. -/
def reserveLocked (node : Bool) (requestId : RequestId) : Reply × Runtime :=
  match rt.queued.lookup requestId with
  | none => (.approved (.error ⟨.invalidRequest, "unknown requestId"⟩), rt)
  | some pending =>
    if node && pending.role != .node then
      (.approved (.error ⟨.invalidRequest,
        "pair approval request belongs to a different pairing surface"⟩), rt)
    else
      (.running, { rt with
        queued := rt.queued.erase requestId
        approving := rt.approving.insert requestId pending
        mutation := some (.reserved node pending) })

def approve (node : Bool) (param : Option RequestId) (nowMs : Nat) : Outcome × Runtime :=
  match param with
  | none =>
    (⟨.approved (.error ⟨.invalidRequest, "pair approval requires a canonical requestId"⟩), []⟩, rt)
  | some requestId =>
    if rt.mutation.isSome then (⟨.blocked, []⟩, rt)
    else
      let (reply, rt') := (rt.prunePending nowMs).reserveLocked node requestId
      (⟨reply, rt.expirations nowMs⟩, rt')

variable (candidate : Table String StoredPairing)

/-- The pairing that an approval writes for the device of its request. -/
def approvedPairing (pending : StoredPendingPairing) : StoredPairing :=
  match candidate.lookup pending.deviceId with
  | some existing =>
    if existing.role = pending.role then
      ⟨pending.deviceId, pending.role, canonical (pending.scopes ++ existing.scopes)⟩
    else ⟨pending.deviceId, pending.role, pending.scopes⟩
  | none => ⟨pending.deviceId, pending.role, pending.scopes⟩

/-- What reading the file gives, unless it fails. -/
def readFile (failure : Option String) : Except String PairingDocument :=
  match failure with
  | some error => .error error
  | none => .ok rt.file

/-- `commit_approval` up to the lock of the pairings. -/
def loadApproval (node : Bool) (pending : StoredPendingPairing)
    (failure : Option String) : Mutation :=
  match loadPairings (rt.readFile failure) with
  | .error error => .restoring pending ⟨.unavailable, error⟩
  | .ok candidate =>
    if (candidate.lookup pending.deviceId).isNone
        && decide (candidate.entries.length ≥ maxPairings) then
      .restoring pending ⟨.invalidRequest, "gateway pairing capacity is exhausted"⟩
    else
      .loaded (candidate.insert pending.deviceId (approvedPairing candidate pending))
        (.approval node pending (approvedPairing candidate pending))

/-- `persist_pairings`; `outcome` is what the file system makes of it, the byte limit included:
an error, or the number of warnings. -/
def persistPairings (outcome : Except String Nat) : Except String Nat :=
  if pairings.entries.length > maxPairings then .error "gateway pairing capacity is exhausted"
  else outcome

/-- The document that `persistPairings` writes. -/
def documentOf : PairingDocument := ⟨pairingSchemaVersion, pairings.values⟩

/-- `commit_approval`, holding the pairings: the file. -/
def commitApproval (node : Bool)
    (pending : StoredPendingPairing) (pairing : StoredPairing) (outcome : Except String Nat) :
    Outcome × Runtime :=
  match persistPairings candidate outcome with
  | .error error =>
    (⟨.running, []⟩, { rt with mutation := some (.restoring pending ⟨.unavailable, error⟩) })
  | .ok warnings =>
    (⟨.running, [.approved pending]⟩, { rt with
      file := documentOf candidate
      mutation := some (.publishing
        (reconcilePairingDirectory rt.pairings candidate (some pairing.deviceId)
          ++ [.pair pairing.deviceId pairing.grant]) 0 candidate warnings
        (.approval node pending pairing)) })

/-- `complete_approval`, and the end of `approve`. -/
def completeApproval (node : Bool) (requestId : RequestId) (pairing : StoredPairing)
    (generation warnings : Nat) : Outcome × Runtime :=
  (⟨.approved (.ok ⟨requestId, generation, warnings == 0, node, pairing⟩), []⟩, { rt with
    approving := rt.approving.erase requestId
    queued := rt.queued.retain fun _ pending =>
      pending.deviceId != pairing.deviceId || pending.role != pairing.role
        || !pending.scopes.all pairing.scopes.contains
    durabilityWarnings := rt.durabilityWarnings + warnings
    mutation := none })

/-- `restore_pending`, and the end of `approve`. -/
def restorePending (pending : StoredPendingPairing) (error : PortError)
    (nowMs : Nat) : Outcome × Runtime :=
  if isFresh nowMs pending then
    (⟨.approved (.error error), []⟩, { rt with
      approving := rt.approving.erase pending.requestId
      queued := rt.queued.insert pending.requestId pending
      mutation := none })
  else
    (⟨.approved (.error error), [.expired pending.requestId]⟩, { rt with
      approving := rt.approving.erase pending.requestId
      mutation := none })

/-! ### Removing -/

def deviceKey (node : Bool) : String := if node then "nodeId" else "deviceId"

/-- `remove` up to the lock of the pairings: an error, or the new pairings. -/
def loadRemoval (node : Bool) (deviceId : String) (failure : Option String) :
    Except PortError (Table String StoredPairing) :=
  match loadPairings (rt.readFile failure) with
  | .error error => .error ⟨.unavailable, error⟩
  | .ok candidate =>
    match candidate.lookup deviceId with
    | none => .error ⟨.invalidRequest, "unknown " ++ deviceKey node⟩
    | some pairing =>
      if node && pairing.role != .node then
        .error ⟨.invalidRequest,
          "pair removal target belongs to a different pairing surface"⟩
      else .ok (candidate.erase deviceId)

def remove (node : Bool) (param : Option String) (failure : Option String) : Outcome × Runtime :=
  match param.filter validDeviceId with
  | none =>
    (⟨.removed (.error
      ⟨.invalidRequest, "pair removal requires a canonical " ++ deviceKey node⟩), []⟩, rt)
  | some deviceId =>
    if rt.mutation.isSome then (⟨.blocked, []⟩, rt)
    else
      match rt.loadRemoval node deviceId failure with
      | .error error => (⟨.removed (.error error), []⟩, rt)
      | .ok candidate =>
        (⟨.running, []⟩,
          { rt with mutation := some (.loaded candidate (.removal node deviceId)) })

/-- `remove`, holding the pairings: the file. -/
def commitRemoval (node : Bool)
    (deviceId : String) (outcome : Except String Nat) : Outcome × Runtime :=
  match persistPairings candidate outcome with
  | .error error => (⟨.removed (.error ⟨.unavailable, error⟩), []⟩, { rt with mutation := none })
  | .ok warnings =>
    (⟨.running, []⟩, { rt with
      file := documentOf candidate
      mutation := some (.publishing (reconcilePairingDirectory rt.pairings candidate none) 0
        candidate warnings (.removal node deviceId)) })

/-- The end of `remove`, with the pairings and the pending requests locked. -/
def dropPending (node : Bool) (deviceId : String) (warnings : Nat) : Outcome × Runtime :=
  (⟨.removed (.ok ⟨true, warnings == 0, node, deviceId⟩), [.removed deviceId]⟩, { rt with
    queued := rt.queued.retain fun _ request => request.deviceId != deviceId
    approving := rt.approving.retain fun _ request => request.deviceId != deviceId
    durabilityWarnings := rt.durabilityWarnings + warnings
    mutation := none })

/-! ### Siblings -/

/-- Another store is opened on the file: `pairing_runtime` finds this runtime. -/
def openSibling (failure : Option String) : Outcome × Runtime :=
  if rt.mutation.isSome then (⟨.blocked, []⟩, rt)
  else
    match loadPairings (rt.readFile failure) with
    | .error error => (⟨.opened (.error error), []⟩, rt)
    | .ok candidate => (⟨.running, []⟩, { rt with mutation := some (.loaded candidate .opening) })

/-- The opening of a sibling, holding the pairings: the file stays as it is. -/
def commitOpening : Outcome × Runtime :=
  (⟨.running, []⟩, { rt with
    mutation := some (.publishing (reconcilePairingDirectory rt.pairings candidate none) 0
      candidate 0 .opening) })

/-! ### Steps -/

/-- What is not known when the holder of the gate goes on. -/
structure Environment where
  nowMs : Nat
  readFailure : Option String
  writeOutcome : Except String Nat

def commit (outcome : Except String Nat) :
    Purpose → Outcome × Runtime
  | .approval node pending pairing => rt.commitApproval candidate node pending pairing outcome
  | .removal node deviceId => rt.commitRemoval candidate node deviceId outcome
  | .opening => rt.commitOpening candidate

/-- The calls to the directory are made: the map is replaced and the pairings are released. -/
def settle (generation : Nat) (candidate : Table String StoredPairing)
    (warnings : Nat) : Purpose → Outcome × Runtime
  | .approval node pending pairing =>
    (⟨.running, []⟩, { rt with
      pairings := candidate
      mutation := some (.completing node pending.requestId pairing generation warnings) })
  | .removal node deviceId =>
    (⟨.running, []⟩, { rt with
      pairings := candidate
      mutation := some (.dropping node deviceId warnings) })
  | .opening =>
    (⟨.opened (.ok ()), []⟩, { rt with
      pairings := candidate
      durabilityWarnings := rt.durabilityWarnings + warnings
      mutation := none })

def advance (env : Environment) : Mutation → Outcome × Runtime
  | .reserved node pending =>
    (⟨.running, []⟩,
      { rt with mutation := some (rt.loadApproval node pending env.readFailure) })
  | .loaded candidate purpose => rt.commit candidate env.writeOutcome purpose
  | .publishing [] generation candidate warnings purpose =>
    rt.settle generation candidate warnings purpose
  | .publishing (call :: calls) _ candidate warnings purpose =>
    (⟨.running, []⟩, { rt with
      devices := call.on rt.devices
      mutation := some (.publishing calls (call.on rt.devices).generation candidate warnings
        purpose) })
  | .completing node requestId pairing generation warnings =>
    rt.completeApproval node requestId pairing generation warnings
  | .dropping node deviceId warnings => rt.dropPending node deviceId warnings
  | .restoring pending error => rt.restorePending pending error env.nowMs

inductive Action where
  | recordPendingUnlocked (deviceId : String) (role : Role) (scopes : List OperatorScope)
  | recordPending (deviceId : String) (role : Role) (scopes : List OperatorScope)
      (nowMs timestamp : Nat)
  | listPending (node : Bool) (nowMs : Nat)
  | listPaired (node : Bool)
  | reject (node : Bool) (param : Option RequestId) (nowMs : Nat)
  | approve (node : Bool) (param : Option RequestId) (nowMs : Nat)
  | remove (node : Bool) (param : Option String) (readFailure : Option String)
  | openSibling (readFailure : Option String)
  | advance (env : Environment)
  /-- A store of another file takes a number for a request. -/
  | elsewhere

def step : Action → Outcome × Runtime
  | .recordPendingUnlocked deviceId role scopes =>
    match rt.recordPendingUnlocked deviceId role scopes with
    | some result => (⟨.registered result, []⟩, rt)
    | none => (⟨.running, []⟩, rt)
  | .recordPending deviceId role scopes nowMs timestamp =>
    rt.recordPending deviceId role scopes nowMs timestamp
  | .listPending node nowMs => rt.listPending node nowMs
  | .listPaired node => rt.listPaired node
  | .reject node param nowMs => rt.reject node param nowMs
  | .approve node param nowMs => rt.approve node param nowMs
  | .remove node param readFailure => rt.remove node param readFailure
  | .openSibling readFailure => rt.openSibling readFailure
  | .advance env =>
    match rt.mutation with
    | some mutation => rt.advance env mutation
    | none => (⟨.blocked, []⟩, rt)
  | .elsewhere => (⟨.running, []⟩, { rt with sequence := rt.sequence + 1 })

end Runtime

end GtaClaw.Pairing
