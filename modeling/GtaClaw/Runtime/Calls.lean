import GtaClaw.Runtime.Sessions

/-!
# Calls on the runtime

`submit_with`, `invoke_goal_authorized` and `shutdown`, cut where another thread can come
in: after a look at a token, a section under a lock, an answer of a port, a spawn, the
closing of a tracker or the end of its `wait`. A step takes one call to its next such
point. A call of `submit_with` goes on as the task that it spawned, which runs the turn
and drops its `LiveTurnGuard`. The clock, the ports, the suspension controller and the
length of a turn are up to the environment.
-/

namespace GtaClaw.Runtime

open Lib

/-! ## What the calls share -/

/-- The two questions that admission puts to the claims of a caller. -/
structure InvocationAuthority where
  canExecute : Bool
  isOwner : Bool

/-- What a caller asks for with a turn. -/
structure TurnOptions where
  model : Option String
  toolsEnabled : Bool
  quiet : Bool
  goal : Option String
  directTool : Bool
  authority : Option InvocationAuthority

/-- The options that `submit_with` refuses before it looks at anything shared. -/
def TurnOptions.check (options : TurnOptions) (input : String) (requireToolAuthority : Bool) :
    Except RuntimeError Unit := do
  require (!(options.directTool && (!(trimmed input).isEmpty || options.goal.isSome
      || options.model.isSome || options.quiet || !options.toolsEnabled
      || !options.authority.any (·.canExecute))))
    (.port (.invalid
      "direct tool commands require authenticated execution authority and no other input or directives"))
  require (!(options.goal.isSome && (requireToolAuthority || options.authority.isSome)
      && !options.authority.any (·.isOwner)))
    (.port (.invalid "goal directives require an authenticated owner"))

/-- What is stored of a session. -/
structure SessionSnapshot where
  turn : Nat
  revision : Nat

/-- A `StatePort`: the pointer of each session, and the turn that `next_turn` answers for
a session that has none. -/
structure StateStore where
  sessions : SessionId → Option SessionSnapshot
  unused : SessionId → Nat

namespace StateStore

/-- The turn that a session would be given now. -/
def nextTurn (s : StateStore) (sessionId : SessionId) : Option Nat :=
  match s.sessions sessionId with
  | some existing => checkedAdd existing.turn 1
  | none => some (s.unused sessionId)

/-- A stale revision is refused. -/
def saveSession (s : StateStore) (sessionId : SessionId) (snapshot : SessionSnapshot) :
    Except PortError (Nat × StateStore) :=
  if ((s.sessions sessionId).map (·.revision)).getD 0 = snapshot.revision then
    let revision := snapshot.revision + 1
    .ok (revision, { s with
      sessions := Function.update s.sessions sessionId (some { snapshot with revision }) })
  else .error (.conflict "session revision changed")

end StateStore

/-- A `TaskTracker` and the calls whose tasks it holds. Closing it does not keep it from
taking more. -/
structure TaskTracker where
  closed : Bool
  tasks : List Nat

/-- A task begins. -/
def TaskTracker.spawn (t : TaskTracker) (call : Nat) : TaskTracker := { t with tasks := call :: t.tasks }

/-- A task ends. -/
def TaskTracker.leave (t : TaskTracker) (call : Nat) : TaskTracker :=
  { t with tasks := t.tasks.filter (· ≠ call) }

/-- Whether `wait` returns. -/
def TaskTracker.drained (t : TaskTracker) : Bool := t.closed && t.tasks.isEmpty

/-! ## Where a call stands -/

/-- Where a call of `submit_with` stands, and then its turn. -/
inductive SubmitPhase where
  | entered
  | admitting
  | sweeping
  | fencing
  | loading (generation : Nat)
  | numbering (generation : Nat)
  | rechecking (generation turn revision : Nat)
  | claiming (generation turn revision : Nat)
  | spawning (generation turn revision : Nat)
  | running (generation turn revision : Nat) (saved : Bool)
  /-- The turn is released, and its session is to be removed. -/
  | retiring (generation turn : Nat)
  /-- The guard is dropped; the tracker still holds the task. -/
  | dropped (turn : Nat)
  | ended (turn : Nat)
  | refused (error : RuntimeError)

/-- Where a call of `invoke_goal_authorized` stands. -/
inductive GoalPhase where
  | entered
  | working
  | ended
  | refused (error : RuntimeError)

/-- Where a call of `shutdown` stands. -/
inductive ShutdownPhase where
  | cancelling
  | refusing
  | withdrawing
  | closing
  | waiting
  | waitingInternal
  | clearing
  | returned
  deriving DecidableEq

/-- The arguments of `submit_with`. -/
structure Submission where
  sessionId : SessionId
  input : String
  options : TurnOptions

/-- A call, and where it stands. -/
inductive Call where
  | submit (request : Submission) (phase : SubmitPhase)
  | goal (phase : GoalPhase)
  | shutdown (phase : ShutdownPhase)

/-- The runtime and the calls on it. -/
structure World where
  requireToolAuthority : Bool
  sessions : ConversationRegistry
  shutdown : Bool
  accepting : Bool
  slots : Nat
  tracker : TaskTracker
  internalTasks : TaskTracker
  state : StateStore
  calls : List Call

/-- What a step meets outside the runtime. -/
structure Env where
  now : Timestamp
  permit : Except WorkRefused Unit
  port : Except PortError Unit
  /-- The turn or the goal task is over, or its future is dropped. -/
  finish : Bool

namespace World

/-- A runtime without calls. -/
def new (requireToolAuthority : Bool) (capacity : Nat) (idleTtl : Duration) (state : StateStore) : World :=
  ⟨requireToolAuthority, .new capacity idleTtl, false, true, max 1 (min capacity 128), ⟨false, []⟩,
    ⟨false, []⟩, state, []⟩

/-- A runtime that nobody has called yet, over any stored sessions. -/
def Fresh (w : World) : Prop :=
  ∃ requireToolAuthority capacity idleTtl state, w = .new requireToolAuthority capacity idleTtl state

/-- The tasks of both trackers. -/
def trackedTasks (w : World) : Nat := w.tracker.tasks.length + w.internalTasks.tasks.length

/-- The call whose turn is cancelled, if the observed turn is the live one. -/
def cancelTurnIfCurrent (w : World) (sessionId : SessionId) (expected : Nat) : Option Nat :=
  (((w.sessions.entries.lookup sessionId).bind (·.live)).filter (·.turn = expected)).map (·.call)

/-! ## Steps -/

/-- One step of `submit_with` or of its turn. -/
def submitStep (w : World) (call : Nat) (env : Env) (request : Submission) :
    SubmitPhase → SubmitPhase × World
  | .entered =>
    if w.shutdown then (.refused .shuttingDown, w)
    else match request.options.check request.input w.requireToolAuthority with
      | .error e => (.refused e, w)
      | .ok () => (.admitting, w)
  | .admitting =>
    match env.permit with
    | .error refused => (.refused (.quiescing refused), w)
    | .ok () => (.sweeping, w)
  | .sweeping => (.fencing, { w with sessions := w.sessions.sweep env.now })
  | .fencing => (.loading w.sessions.generation, w)
  | .loading generation =>
    match env.port, w.state.sessions request.sessionId with
    | .error e, _ => (.refused (.port e), w)
    | .ok (), some existing =>
      match checkedAdd existing.turn 1 with
      | some turn => (.rechecking generation turn existing.revision, w)
      | none => (.refused (.port (.conflict "session turn identity exhausted")), w)
    | .ok (), none => (.numbering generation, w)
  | .numbering generation =>
    match env.port with
    | .error e => (.refused (.port e), w)
    | .ok () => (.rechecking generation (w.state.unused request.sessionId) 0, w)
  | .rechecking generation turn revision =>
    if w.shutdown then (.refused .shuttingDown, w) else (.claiming generation turn revision, w)
  | .claiming generation turn revision =>
    match w.sessions.claim request.sessionId generation ⟨turn, call⟩ env.now with
    | .error e => (.refused e, w)
    | .ok (_, sessions) => (.spawning generation turn revision, { w with sessions })
  | .spawning generation turn revision =>
    (.running generation turn revision false, { w with tracker := w.tracker.spawn call })
  | .running generation turn revision saved =>
    if env.finish then
      let (retiring, sessions) := w.sessions.release request.sessionId turn generation env.now
      (if retiring then .retiring generation turn else .dropped turn, { w with sessions })
    else match env.port, w.state.saveSession request.sessionId ⟨turn, revision⟩ with
      | .ok (), .ok (revision, state) => (.running generation turn revision true, { w with state })
      | _, _ => (.running generation turn revision saved, w)
  | .retiring generation turn =>
    (.dropped turn,
      { w with sessions := w.sessions.finishRetirement request.sessionId generation })
  | .dropped turn => (.ended turn, { w with tracker := w.tracker.leave call })
  | .ended turn => (.ended turn, w)
  | .refused e => (.refused e, w)

theorem submitStep_frame (env : Env) (w : World) (i : Nat) (request : Submission) (phase : SubmitPhase) :
    (w.submitStep i env request phase).2.calls = w.calls ∧
    (w.submitStep i env request phase).2.shutdown = w.shutdown ∧
    (w.submitStep i env request phase).2.accepting = w.accepting ∧
    (w.submitStep i env request phase).2.internalTasks = w.internalTasks := by
  fun_cases World.submitStep w i env request phase <;> simp_all

/-- One step of `invoke_goal_authorized`. -/
def goalStep (w : World) (call : Nat) (env : Env) : GoalPhase → GoalPhase × World
  | .entered =>
    if !w.accepting || w.shutdown then (.refused .shuttingDown, w)
    else if w.slots = 0 then
      (.refused (.port (.unavailable "runtime goal task capacity exceeded")), w)
    else (.working, { w with
      slots := w.slots - 1
      internalTasks := w.internalTasks.spawn call })
  | .working =>
    if env.finish then (.ended, { w with
      slots := w.slots + 1
      internalTasks := w.internalTasks.leave call })
    else (.working, w)
  | .ended => (.ended, w)
  | .refused e => (.refused e, w)

/-- One step of `shutdown`. -/
def shutdownStep (w : World) : ShutdownPhase → ShutdownPhase × World
  | .cancelling => (.refusing, { w with shutdown := true })
  | .refusing => (.withdrawing, { w with
      accepting := false
      internalTasks := { w.internalTasks with closed := true } })
  | .withdrawing => (.closing, w)
  | .closing => (.waiting, { w with tracker := { w.tracker with closed := true } })
  | .waiting => if w.tracker.drained then (.waitingInternal, w) else (.waiting, w)
  | .waitingInternal => if w.internalTasks.drained then (.clearing, w) else (.waitingInternal, w)
  | .clearing => (.returned, { w with sessions := w.sessions.clear })
  | .returned => (.returned, w)

/-- A call moves on. -/
def set (w : World) (i : Nat) (call : Call) : World := { w with calls := w.calls.set i call }

/-- One step of a call. -/
def advance (w : World) (i : Nat) (env : Env) : World :=
  match w.calls[i]? with
  | some (.submit request phase) =>
    let (phase, w) := w.submitStep i env request phase
    w.set i (.submit request phase)
  | some (.goal phase) =>
    let (phase, w) := w.goalStep i env phase
    w.set i (.goal phase)
  | some (.shutdown phase) =>
    let (phase, w) := w.shutdownStep phase
    w.set i (.shutdown phase)
  | none => w

end World

/-- What can be called. -/
inductive Request where
  | submit (request : Submission)
  | goal
  | shutdown

/-- A call at its beginning. -/
def Request.call : Request → Call
  | .submit request => .submit request .entered
  | .goal => .goal .entered
  | .shutdown => .shutdown .cancelling

/-- A call begins, or goes on. -/
inductive Act where
  | start (request : Request)
  | advance (call : Nat) (env : Env)

/-- **One step of the runtime.** -/
def World.step (w : World) : Act → Unit × World
  | .start request => ((), { w with calls := w.calls ++ [request.call] })
  | .advance i env => ((), w.advance i env)

/-! ## A runtime to make calls on -/

def deskSession : SessionId := ⟨"desk", by decide +kernel⟩

/-- A turn on that session. -/
def deskTurn : Act := .start (.submit ⟨deskSession, "go on", ⟨none, true, false, none, false, none⟩⟩)

/-- A step of a call at which everything goes well. -/
def goOn (call : Nat) : Act := .advance call ⟨⟨0⟩, .ok (), .ok (), false⟩

/-- The turn of a call ends. -/
def finish (call : Nat) : Act := .advance call ⟨⟨0⟩, .ok (), .ok (), true⟩

/-- A runtime that has room for four sessions. -/
def deskRuntime : World := .new false 4 ⟨60000⟩ ⟨fun _ => none, fun _ => 1⟩

theorem deskRuntime_fresh : deskRuntime.Fresh := ⟨_, _, _, _, rfl⟩

end GtaClaw.Runtime
