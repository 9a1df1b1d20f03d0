import GtaClaw.Lib.Run
import GtaClaw.Runtime.Ids

/-!
# Cooperative suspension

The controller admits units of work and can be asked to quiesce. `prepare` moves it
to `draining`, waits until no work is in flight and then makes it `suspended`
under a lease; if the wait takes too long it goes back to `active`. A lease ends
when it is resumed, or when some later call notices that it has expired.

Every locked section is one step. `prepare` has several of them, and other calls
may come in between: a call of it is a task with a stage, and `poll` runs the task
to the end of its next locked section. Its future can be dropped where it awaits,
and its guard then takes the transition back.
-/

namespace GtaClaw.Runtime

/-- Whether work is admitted. -/
inductive SuspensionPhase where
  | active
  | draining
  | suspended
  deriving DecidableEq, Repr

def SuspensionPhase.admitsWork (phase : SuspensionPhase) : Bool := phase = .active

/-- What holds a suspension, until it expires. -/
structure SuspendLease where
  leaseId : LeaseId
  reason : String
  grantedAt : Timestamp
  expiresAt : Timestamp
  deriving DecidableEq

/-- What `status` and `resume` report. -/
structure SuspensionStatus where
  phase : SuspensionPhase
  inFlight : Nat
  lease : Option SuspendLease
  observedAt : Timestamp
  deriving DecidableEq

/-- The arguments of `prepare`. -/
structure PrepareRequest where
  leaseId : LeaseId
  reason : String
  drainTimeout : Duration
  leaseTtl : Duration

/-- How a drain ends. -/
inductive PrepareOutcome where
  | suspended (lease : SuspendLease)
  | drainTimedOut (inFlight : Nat)
  deriving DecidableEq

/-- Why a call is refused. -/
inductive SuspendError where
  | alreadySuspended (leaseId : LeaseId)
  | alreadyDraining (leaseId : LeaseId)
  | notSuspended
  | leaseMismatch (expected presented : LeaseId)
  | deadlineOverflow
  deriving DecidableEq

structure WorkRefused where
  phase : SuspensionPhase
  deriving DecidableEq

/-- What the lock guards. -/
structure ControllerState where
  phase : SuspensionPhase
  inFlight : Nat
  lease : Option SuspendLease
  deriving DecidableEq

namespace ControllerState

variable (now : Timestamp)

variable (s : ControllerState)

/-- A lease that has run out ends. -/
def expireLocked : ControllerState :=
  if s.phase ≠ .suspended then s
  else match s.lease with
    | none => s
    | some lease => if lease.expiresAt ≤ now then { s with phase := .active, lease := none } else s

/-- Work is admitted in the active phase only. -/
def admitWork : Except WorkRefused Unit × ControllerState :=
  let s := s.expireLocked now
  if !s.phase.admitsWork then (.error ⟨s.phase⟩, s)
  else (.ok (), { s with inFlight := saturatingAdd s.inFlight 1 })

/-- Work ends. -/
def dropPermit : ControllerState := { s with inFlight := s.inFlight - 1 }

def status : SuspensionStatus × ControllerState :=
  let s := s.expireLocked now
  (⟨s.phase, s.inFlight, s.lease, now⟩, s)

/-- Only the holder of the lease resumes. -/
def resume (leaseId : LeaseId) (s : ControllerState) :
    Except SuspendError SuspensionStatus × ControllerState :=
  let s := s.expireLocked now
  match s.lease with
  | none => (.error .notSuspended, s)
  | some held =>
    if s.phase ≠ .suspended then (.error .notSuspended, s)
    else if held.leaseId ≠ leaseId then (.error (.leaseMismatch held.leaseId leaseId), s)
    else (.ok ⟨.active, s.inFlight, none, now⟩, { s with phase := .active, lease := none })

def owningLeaseId (requested : LeaseId) : LeaseId := (s.lease.map (·.leaseId)).getD requested

/-- The first locked section of `prepare`; `DrainGuard::arm` if nothing is under way. -/
def beginDrain (lease : SuspendLease) (s : ControllerState) :
    Except SuspendError Unit × ControllerState :=
  let s := s.expireLocked now
  match s.phase with
  | .draining => (.error (.alreadyDraining (s.owningLeaseId lease.leaseId)), s)
  | .suspended => (.error (.alreadySuspended (s.owningLeaseId lease.leaseId)), s)
  | .active => (.ok (), { s with phase := .draining, lease := some lease })

/-- The last locked section of `prepare`. -/
def endDrain (drained : Bool) (lease : SuspendLease) (s : ControllerState) :
    PrepareOutcome × ControllerState :=
  if drained then (.suspended (s.lease.getD lease), { s with phase := .suspended })
  else (.drainTimedOut s.inFlight, { s with phase := .active, lease := none })

/-- The destructor of a `DrainGuard` that is armed. -/
def dropGuard (leaseId : LeaseId) (s : ControllerState) : ControllerState :=
  if s.phase = .draining ∧ s.lease.any (·.leaseId = leaseId) then
    { s with phase := .active, lease := none }
  else s

end ControllerState

/-! ## Tasks -/

/-- Where a call of `prepare` stands. -/
inductive Stage where
  | start
  /-- The deadlines are computed. -/
  | checkPhase (lease : SuspendLease) (deadline : Timestamp)
  /-- The guard is armed; a waiter is about to be registered. -/
  | register (lease : SuspendLease) (deadline : Timestamp)
  /-- Registered, and about to read the count. -/
  | check (lease : SuspendLease) (deadline : Timestamp) (notified : Bool)
  /-- The only await. -/
  | waiting (lease : SuspendLease) (deadline : Timestamp) (notified : Bool)
  /-- The wait is over and the guard disarmed. -/
  | decided (lease : SuspendLease) (drained : Bool)
  | returned (result : Except SuspendError PrepareOutcome)
  | dropped

/-- `Notify::notify_waiters` reaches those that are registered. -/
def Stage.notify : Stage → Stage
  | .check lease deadline _ => .check lease deadline true
  | .waiting lease deadline _ => .waiting lease deadline true
  | stage => stage

/-- A call of `prepare`. -/
structure Prepare where
  request : PrepareRequest
  stage : Stage

/-- The controller, the permits that are alive, the calls of `prepare` and the clock. -/
structure Suspension where
  state : ControllerState
  permits : Nat
  /-- The destructors of permits that left no work and have yet to notify. -/
  notifying : Nat
  tasks : List Prepare
  now : Timestamp
  halted : Bool

/-- What can happen next. -/
inductive SuspendAct where
  | admitWork
  | dropPermit
  | notifyWaiters
  | status
  | resume (leaseId : LeaseId)
  | prepare (request : PrepareRequest)
  | poll (task : Nat)
  | drop (task : Nat)
  | setClock (now : Timestamp)

inductive SuspendAnswer where
  | admitted (result : Except WorkRefused Unit)
  | status (status : SuspensionStatus)
  | resumed (result : Except SuspendError SuspensionStatus)
  | prepared (result : Except SuspendError PrepareOutcome)
  | nothing
  deriving DecidableEq

/-- `isize::MAX`; one more handle of a shared value aborts the process. -/
def isizeMax : Nat := 2 ^ 63 - 1

namespace Suspension

def new (now : Timestamp) : Suspension := ⟨⟨.active, 0, none⟩, 0, 0, [], now, false⟩

variable (w : Suspension)

/-- Each permit holds a handle of the shared state to the end of its destructor, beside the
controller's own. -/
def admitWork : SuspendAnswer × Suspension :=
  match w.state.admitWork w.now with
  | (.error refused, state) => (.admitted (.error refused), { w with state })
  | (.ok (), state) =>
    if w.permits + w.notifying + 2 > isizeMax then (.nothing, { w with halted := true })
    else (.admitted (.ok ()), { w with state, permits := w.permits + 1 })

/-- The locked section of a permit's destructor. -/
def dropPermit : Suspension :=
  if w.permits = 0 then w
  else
    let state := w.state.dropPermit
    let notifying := if state.inFlight = 0 then w.notifying + 1 else w.notifying
    { w with state, notifying, permits := w.permits - 1 }

/-- What follows the lock in a destructor that left no work. -/
def notifyWaiters : Suspension :=
  if w.notifying = 0 then w
  else { w with
    notifying := w.notifying - 1
    tasks := w.tasks.map fun task => { task with stage := task.stage.notify } }

/-- The next section of a task: the answer if it returns, its stage, and the controller. -/
def pollStage (now : Timestamp) (state : ControllerState) (request : PrepareRequest) :
    Stage → SuspendAnswer × Stage × ControllerState
  | .start =>
    match now.checkedAdd request.drainTimeout, now.checkedAdd request.leaseTtl with
    | some deadline, some expiresAt =>
      (.nothing, .checkPhase ⟨request.leaseId, request.reason, now, expiresAt⟩ deadline, state)
    | _, _ => (.prepared (.error .deadlineOverflow), .returned (.error .deadlineOverflow), state)
  | .checkPhase lease deadline =>
    match state.beginDrain now lease with
    | (.error e, state) => (.prepared (.error e), .returned (.error e), state)
    | (.ok (), state) => (.nothing, .register lease deadline, state)
  | .register lease deadline => (.nothing, .check lease deadline false, state)
  | .check lease deadline notified =>
    if state.inFlight = 0 then (.nothing, .decided lease true, state)
    else (.nothing, .waiting lease deadline notified, state)
  | .waiting lease deadline notified =>
    -- the notification is polled before the deadline
    if notified then
      if state.inFlight = 0 then (.nothing, .decided lease true, state)
      else (.nothing, .register lease deadline, state)
    else if deadline ≤ now then (.nothing, .decided lease (state.inFlight = 0), state)
    else (.nothing, .waiting lease deadline notified, state)
  | .decided lease drained =>
    let (outcome, state) := state.endDrain drained lease
    (.prepared (.ok outcome), .returned (.ok outcome), state)
  | .returned result => (.nothing, .returned result, state)
  | .dropped => (.nothing, .dropped, state)

/-- A task runs its next section. -/
def poll (i : Nat) : SuspendAnswer × Suspension :=
  match w.tasks[i]? with
  | none => (.nothing, w)
  | some task =>
    let (answer, stage, state) := pollStage w.now w.state task.request task.stage
    (answer, { w with state, tasks := w.tasks.set i { task with stage } })

/-- A future is dropped where it awaits. -/
def drop (i : Nat) : Suspension :=
  match w.tasks[i]? with
  | none => w
  | some task => match task.stage with
      | .start => { w with tasks := w.tasks.set i { task with stage := .dropped } }
      | .waiting lease _ _ => { w with
          state := w.state.dropGuard lease.leaseId
          tasks := w.tasks.set i { task with stage := .dropped } }
      | _ => w

/-- **One step of the controller.** -/
def step (a : SuspendAct) : SuspendAnswer × Suspension :=
  if w.halted then (.nothing, w)
  else match a with
    | .admitWork => w.admitWork
    | .dropPermit => (.nothing, w.dropPermit)
    | .notifyWaiters => (.nothing, w.notifyWaiters)
    | .status =>
      let (status, state) := w.state.status w.now
      (.status status, { w with state })
    | .resume leaseId =>
      let (result, state) := w.state.resume w.now leaseId
      (.resumed result, { w with state })
    | .prepare request => (.nothing, { w with tasks := w.tasks ++ [⟨request, .start⟩] })
    | .poll i => w.poll i
    | .drop i => (.nothing, w.drop i)
    | .setClock now => (.nothing, { w with now })

end Suspension

end GtaClaw.Runtime
