import GtaClaw.Lib.Prog
import GtaClaw.Lib.Table

/-!
# The transport of watch nodes

A watch has no socket: it polls for its events over HTTP. The gateway queues events on
the session of the node, and a poll that finds none waits for the next one. A newer poll
of the session supersedes it. A poll whose request is dropped while it waits takes the
session down with it.

Every operation is a program. Its calls are the sections that hold a lock and the
accesses to the atomic fields; the places where a request can be dropped are calls too,
and the environment answers them. A wake-up of a waiting poll can come at any time, so
`Notify` itself is not modelled.

Three fields of the runtime are records of what happened and are read by no operation:
the events that were queued and returned, and for an `enqueue` that has found its session
open, which one that was.
-/

namespace GtaClaw.Watch

open Lib

structure HttpLimits where
  watchIdleTimeout : Nat
  watchQueueEvents : Nat
  watchSessions : Nat
  watchQueueBytes : Nat
  watchEventBytes : Nat
  deriving DecidableEq, Repr

/-- An event and its payload, a JSON text. -/
structure Event where
  event : String
  payload : Option String
  deriving DecidableEq, Repr

structure QueuedEvent where
  value : Event
  bytes : Nat
  /-- Its place among all the events that were ever queued. -/
  serial : Nat
  deriving DecidableEq, Repr

structure WatchSession where
  token : String
  nodeId : String
  events : List QueuedEvent
  bytes : Nat
  closed : Bool
  lastSeen : Nat
  /-- The polls so far, modulo `2 ^ 64`. -/
  pollGeneration : UInt64
  deriving DecidableEq, Repr

structure Queued where
  task : Nat
  session : Nat
  event : Event
  /-- The session was not closed. -/
  live : Bool
  deriving DecidableEq, Repr

structure Returned where
  task : Nat
  session : Nat
  serial : Nat
  deriving DecidableEq, Repr

structure Runtime where
  /-- The sessions that were ever made, whether or not the tables still know them. -/
  objects : List WatchSession
  sessions : Table String Nat
  nodeTokens : Table String String
  queued : List Queued
  returned : List Returned
  /-- The `enqueue`s between their look at the closed flag and the queue. -/
  sending : Table Nat Nat
  /-- The polls that were dropped when a newer one had superseded them. -/
  droppedLate : Table Nat Nat

namespace Runtime

def new : Runtime := ⟨[], ∅, ∅, [], [], ∅, ∅⟩

def update (r : Runtime) (s : Nat) (f : WatchSession → WatchSession) : Runtime :=
  { r with objects := r.objects.modify s f }

def isOpen (r : Runtime) (s : Nat) : Bool := r.objects[s]?.any fun session => !session.closed

end Runtime

namespace WatchSession

variable (session : WatchSession)

def idleElapsed (now : Nat) : Nat := now - session.lastSeen

def expired (now idle : Nat) : Bool := idle ≤ session.idleElapsed now

def markClosed : WatchSession := { session with closed := true }

def clearQueue : WatchSession := { session with events := [], bytes := 0 }

def close : WatchSession := session.markClosed.clearQueue

def pushBack (event : QueuedEvent) (session : WatchSession) : WatchSession :=
  { session with events := session.events ++ [event], bytes := session.bytes + event.bytes }

def popFront (event : QueuedEvent) (rest : List QueuedEvent) (session : WatchSession) :
    WatchSession :=
  { session with events := rest, bytes := session.bytes - event.bytes }

end WatchSession

/-! ## A new session -/

namespace Runtime

def removeSession (r : Runtime) (token : String) : Runtime :=
  match r.sessions.lookup token with
  | none => r
  | some s =>
    let r := { r with sessions := r.sessions.erase token }.update s .close
    match r.objects[s]? with
    | some session =>
      if r.nodeTokens.lookup session.nodeId = some token then
        { r with nodeTokens := r.nodeTokens.erase session.nodeId }
      else r
    | none => r

/-- The entry that has been idle longest; the last one if there are several. -/
def longestIdle (r : Runtime) (now : Nat) : Option String :=
  let idle (s : Nat) : Nat := (r.objects[s]?.map (·.idleElapsed now)).getD 0
  (r.sessions.entries.foldl (fun best entry =>
    match best with
    | some held => if idle held.2 ≤ idle entry.2 then some entry else some held
    | none => some entry) none).map (·.1)

/-- Make room, the longest idle session first. -/
def evict (now capacity : Nat) : Nat → Runtime → Runtime
  | 0, r => r
  | fuel + 1, r =>
    if capacity ≤ r.sessions.entries.length then
      match r.longestIdle now with
      | some oldest => evict now capacity fuel (r.removeSession oldest)
      | none => r
    else r

def pruneSessions (limits : HttpLimits) (now : Nat) (r : Runtime) : Runtime :=
  let stale := (r.sessions.entries.filter fun entry =>
    r.objects[entry.2]?.any fun session =>
      session.closed || session.expired now limits.watchIdleTimeout).map (·.1)
  let r := stale.foldl removeSession r
  evict now (max limits.watchSessions 1) r.sessions.entries.length r

def replacePrevious (r : Runtime) (nodeId : String) : Runtime :=
  match r.nodeTokens.lookup nodeId with
  | none => r
  | some previousToken =>
    let r := { r with nodeTokens := r.nodeTokens.erase nodeId }
    match r.sessions.lookup previousToken with
    | some previous => { r with sessions := r.sessions.erase previousToken }.update previous .close
    | none => r

/-- `insert_session`: all of it happens under the locks of both tables. -/
def insertSession (limits : HttpLimits) (now : Nat) (nodeId token : String) (r : Runtime) :
    Nat × Runtime :=
  let r := (r.replacePrevious nodeId).pruneSessions limits now
  (r.objects.length, { r with
    objects := r.objects ++ [⟨token, nodeId, [], 0, false, now, 0⟩]
    nodeTokens := r.nodeTokens.insert nodeId token
    sessions := r.sessions.insert token r.objects.length })

end Runtime

/-! ## Calls -/

inductive Call where
  | tokenOf (nodeId : String)
  | sessionOf (token : String)
  | isClosed (s : Nat)
  | idleElapsed (s : Nat)
  | touch (s : Nat)
  | markClosed (s : Nat)
  | clearQueue (s : Nat)
  /-- The session leaves the table of sessions. -/
  | forget (s : Nat)
  /-- The session leaves the table of nodes, if it is the one of its node. -/
  | release (s : Nat)
  | push (s : Nat) (value : Event) (bytes : Nat)
  | pop (s : Nat)
  /-- `poll_generation.fetch_add`. -/
  | supersede (s : Nat)
  | generation (s : Nat)
  | insertSession (nodeId token : String)
  | drain
  /-- The `select!` of a poll. -/
  | wait (s : Nat) (generation : UInt64)

inductive Drained where
  | read
  | failed
  | dropped
  deriving DecidableEq, Repr

inductive Wake where
  | notified
  | deadline
  | dropped
  deriving DecidableEq, Repr

@[reducible] def Call.Answer : Call → Type
  | .tokenOf _ => Option String
  | .sessionOf _ => Option Nat
  | .isClosed _ => Bool
  | .idleElapsed _ => Nat
  | .touch _ | .markClosed _ | .clearQueue _ | .forget _ | .release _ => Unit
  | .push .. => Bool
  | .pop _ => Option QueuedEvent
  | .supersede _ => UInt64
  | .generation _ => UInt64
  | .insertSession .. => Nat
  | .drain => Drained
  | .wait .. => Wake

/-- The clock, and what becomes of a request that waits. -/
structure Env where
  now : Nat
  drained : Drained
  wake : Wake
  deriving DecidableEq, Repr

inductive Op where
  | enqueue (nodeId : String) (event : Event)
  | connect (nodeId token : String)
  /-- A poll that is woken at most so many times. -/
  | poll (token : Option String) (rounds : Nat)
  | disconnect (token : Option String)
  | result (token : Option String)
  deriving DecidableEq, Repr

namespace Runtime

def push (limits : HttpLimits) (i : Nat) (r : Runtime) (s : Nat) (value : Event) (bytes : Nat) :
    Bool × Runtime :=
  match r.objects[s]? with
  | none => (false, r)
  | some session =>
    if limits.watchQueueEvents ≤ session.events.length
        || limits.watchQueueBytes < session.bytes + bytes then (false, r)
    else
      (true, { r.update s (.pushBack ⟨value, bytes, r.queued.length⟩) with
        queued := r.queued ++ [⟨i, s, value, r.isOpen s⟩]
        sending := r.sending.erase i })

def pop (i : Nat) (r : Runtime) (s : Nat) : Option QueuedEvent × Runtime :=
  match r.objects[s]? with
  | none => (none, r)
  | some session =>
    match session.events with
    | [] => (none, r)
    | event :: rest =>
      (some event, { r.update s (.popFront event rest) with
        returned := r.returned ++ [⟨i, s, event.serial⟩] })

def forget (r : Runtime) (s : Nat) : Runtime :=
  match r.objects[s]? with
  | some session => { r with sessions := r.sessions.erase session.token }
  | none => r

def release (r : Runtime) (s : Nat) : Runtime :=
  match r.objects[s]? with
  | some session =>
    if r.nodeTokens.lookup session.nodeId = some session.token then
      { r with nodeTokens := r.nodeTokens.erase session.nodeId }
    else r
  | none => r

/-- The closed flag is read. An `enqueue` goes on if it is not set. -/
def readClosed (i : Nat) (op : Op) (r : Runtime) (s : Nat) : Bool × Runtime :=
  (!r.isOpen s, match op with
    | .enqueue .. => if r.isOpen s then { r with sending := r.sending.insert i s } else r
    | _ => r)

def superseded (r : Runtime) (s : Nat) (generation : UInt64) : Bool :=
  r.objects[s]?.any fun session => session.pollGeneration != generation

def wait (i : Nat) (r : Runtime) (s : Nat) (generation : UInt64) (wake : Wake) : Runtime :=
  if wake = .dropped ∧ r.superseded s generation then
    { r with droppedLate := r.droppedLate.insert i s }
  else r

end Runtime

def exec (limits : HttpLimits) (i : Nat) (op : Op) (r : Runtime) (env : Env) :
    (c : Call) → c.Answer × Runtime
  | .tokenOf nodeId => (r.nodeTokens.lookup nodeId, r)
  | .sessionOf token => (r.sessions.lookup token, r)
  | .isClosed s => r.readClosed i op s
  | .idleElapsed s => ((r.objects[s]?.map (·.idleElapsed env.now)).getD 0, r)
  | .touch s => ((), r.update s fun session => { session with lastSeen := env.now })
  | .markClosed s => ((), { r.update s .markClosed with sending := r.sending.erase i })
  | .clearQueue s => ((), r.update s .clearQueue)
  | .forget s => ((), r.forget s)
  | .release s => ((), r.release s)
  | .push s value bytes => r.push limits i s value bytes
  | .pop s => r.pop i s
  | .supersede s =>
    ((r.objects[s]?.map (·.pollGeneration)).getD 0 + 1,
      r.update s fun session => { session with pollGeneration := session.pollGeneration + 1 })
  | .generation s => ((r.objects[s]?.map (·.pollGeneration)).getD 0, r)
  | .insertSession nodeId token =>
    let (s, r) := r.insertSession limits env.now nodeId token
    (s, { r with sending := r.sending.erase i })
  | .drain => (env.drained, r)
  | .wait s generation => (env.wake, r.wait i s generation env.wake)

/-! ## Operations -/

inductive Reply where
  | sent (accepted : Bool)
  /-- "event is not serializable". -/
  | notSerializable
  | connected (s : Nat)
  | unauthorized
  | badBody
  | event (s : Nat) (event : QueuedEvent)
  /-- The poll ran into its deadline. -/
  | noEvent
  | supersededPoll
  | disconnected
  | accepted
  | dropped
  /-- The poll was woken as often as we look at. -/
  | waiting
  deriving DecidableEq, Repr

abbrev WatchProg := Prog Call Call.Answer

abbrev ask (c : Call) : WatchProg c.Answer := Prog.ask c

section Ops

variable (limits : HttpLimits) (serializedLen : Event → Option Nat)

def closeSession (s : Nat) : WatchProg Unit := do
  ask (.markClosed s)
  ask (.clearQueue s)
  ask (.forget s)
  ask (.release s)

/-- Closed, or idle for too long. -/
def unusable (s : Nat) : WatchProg Bool := do
  if ← ask (.isClosed s) then
    return true
  else
    return limits.watchIdleTimeout ≤ (← ask (.idleElapsed s))

def session (token : String) : WatchProg (Option Nat) := do
  match ← ask (.sessionOf token) with
  | none => return none
  | some s =>
    if ← unusable limits s then
      closeSession s
      return none
    else
      ask (.touch s)
      return some s

variable (token : Option String)

def authenticatedSession : WatchProg (Option Nat) :=
  match token with
  | none => return none
  | some token => session limits token

/-- The event goes to the queue of an open session. -/
def offer (s : Nat) (event : Event) : WatchProg Reply := do
  match serializedLen event with
  | none => return .notSerializable
  | some bytes =>
    if limits.watchEventBytes < bytes then
      closeSession s
      return .sent false
    else if ← ask (.push s event bytes) then
      return .sent true
    else
      closeSession s
      return .sent false

def enqueue (nodeId : String) (event : Event) : WatchProg Reply := do
  match ← ask (.tokenOf nodeId) with
  | none => return .sent false
  | some token =>
    match ← ask (.sessionOf token) with
    | none => return .sent false
    | some s =>
      if ← unusable limits s then
        closeSession s
        return .sent false
      else
        offer limits serializedLen s event

def pollLoop (s : Nat) (generation : UInt64) : Nat → WatchProg Reply
  | 0 => return .waiting
  | rounds + 1 => do
    if ← ask (.isClosed s) then
      return .unauthorized
    else if (← ask (.generation s)) ≠ generation then
      return .supersededPoll
    else
      match ← ask (.pop s) with
      | some event => return .event s event
      | none =>
        match ← ask (.wait s generation) with
        | .deadline => return .noEvent
        | .notified => pollLoop s generation rounds
        -- the guard of the poll is still armed
        | .dropped =>
          closeSession s
          return .dropped

def poll (rounds : Nat) : WatchProg Reply := do
  match ← authenticatedSession limits token with
  | none => return .unauthorized
  | some s =>
    match ← ask .drain with
    | .failed => return .badBody
    | .dropped => return .dropped
    | .read =>
      match ← ask (.pop s) with
      | some event => return .event s event
      | none => pollLoop s (← ask (.supersede s)) rounds

def disconnect : WatchProg Reply := do
  match ← authenticatedSession limits token with
  | none => return .unauthorized
  | some s =>
    match ← ask .drain with
    | .failed => return .badBody
    | .dropped => return .dropped
    | .read =>
      closeSession s
      return .disconnected

/-- What a result of the node does to its session. -/
def result : WatchProg Reply := do
  match ← authenticatedSession limits token with
  | none => return .unauthorized
  | some _ => return .accepted

def body : Op → WatchProg Reply
  | .enqueue nodeId event => enqueue limits serializedLen nodeId event
  | .connect nodeId token => do return .connected (← ask (.insertSession nodeId token))
  | .poll token rounds => poll limits token rounds
  | .disconnect token => disconnect limits token
  | .result token => result limits token

abbrev World := Pool Runtime Op Call Call.Answer Reply

abbrev step (w : World) (a : PoolAct Op Env) : Unit × World :=
  Pool.step (body limits serializedLen) (exec limits) w a

def start : World := ⟨.new, []⟩

end Ops

end GtaClaw.Watch
