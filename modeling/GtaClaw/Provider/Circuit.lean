import Mathlib.Tactic
import GtaClaw.Lib.Run
import GtaClaw.Lib.Table

/-!
# The circuit breaker of a provider

A breaker admits requests while it is closed, none while it is open, and a few probes
while it is half open. Every admission is a permit that is reported once, as a success or
a failure, or dropped. A permit can outlive the state it was admitted in: the breaker
tells by the probe flag and the epoch that it keeps in the permit.

A world is a breaker with its live permits, and a record of what happened that the
breaker does not read: `period` counts the changes of state, `reports` are those of the
permits that were admitted in the current period.
-/

namespace GtaClaw.Provider

open Lib

def u32Max : Nat := 2 ^ 32 - 1

def u64Max : Nat := 2 ^ 64 - 1

inductive ErrorKind where
  | authentication
  | rateLimit
  | quota
  | transport
  | protocol
  | server
  | invalidRequest
  | cancelled
  | timeout
  | circuitOpen
  | unsupported
  deriving DecidableEq, Repr

def ErrorKind.tripsCircuit : ErrorKind → Bool
  | .transport | .server | .timeout | .protocol => true
  | _ => false

structure CircuitBreakerConfig where
  failureThreshold : Nat
  openDurationNanos : Nat
  halfOpenProbes : Nat
  successThreshold : Nat
  deriving DecidableEq, Repr

instance : Inhabited CircuitBreakerConfig := ⟨⟨5, 30 * 10 ^ 9, 1, 1⟩⟩

/-- The open duration in whole milliseconds, as far as a timestamp can tell them. -/
def CircuitBreakerConfig.window (config : CircuitBreakerConfig) : Nat :=
  min (config.openDurationNanos / 10 ^ 6) u64Max

inductive CircuitState where
  | closed
  | «open»
  | halfOpen
  deriving DecidableEq, Repr

structure BreakerState where
  state : CircuitState
  consecutiveFailures : Nat
  consecutiveSuccesses : Nat
  openedAtMillis : Nat
  probesInFlight : Nat
  probeEpoch : Nat
  deriving DecidableEq, Repr

structure PermitAdmission where
  probe : Bool
  probeEpoch : Nat
  deriving DecidableEq, Repr

namespace BreakerState

def new : BreakerState := ⟨.closed, 0, 0, 0, 0, 0⟩

def refresh (inner : BreakerState) (config : CircuitBreakerConfig) (now : Nat) : BreakerState :=
  if inner.state = .open then
    if config.window ≤ now - inner.openedAtMillis then
      { inner with
        state := .halfOpen
        probesInFlight := 0
        consecutiveSuccesses := 0
        probeEpoch := min (inner.probeEpoch + 1) u64Max }
    else inner
  else inner

/-- `admit`. -/
def admitRequest (inner : BreakerState) (config : CircuitBreakerConfig) (now : Nat) :
    Except String PermitAdmission × BreakerState :=
  let inner := inner.refresh config now
  match inner.state with
  | .closed => (.ok ⟨false, inner.probeEpoch⟩, inner)
  | .halfOpen =>
    if config.halfOpenProbes ≤ inner.probesInFlight then
      (.error "half-open probe budget exhausted", inner)
    else
      (.ok ⟨true, inner.probeEpoch⟩, { inner with probesInFlight := inner.probesInFlight + 1 })
  | .open => (.error "circuit is open after repeated failures", inner)

def permitSuccess (inner : BreakerState) (config : CircuitBreakerConfig)
    (admission : PermitAdmission) : BreakerState :=
  if admission.probe ∧ inner.state = .halfOpen ∧ inner.probeEpoch = admission.probeEpoch then
    let inner := { inner with
      probesInFlight := inner.probesInFlight - 1
      consecutiveFailures := 0
      consecutiveSuccesses := min (inner.consecutiveSuccesses + 1) u32Max }
    if config.successThreshold ≤ inner.consecutiveSuccesses then
      { inner with state := .closed, consecutiveSuccesses := 0, probesInFlight := 0 }
    else inner
  else if ¬admission.probe ∧ inner.state = .closed ∧ inner.probeEpoch = admission.probeEpoch then
    { inner with consecutiveFailures := 0, consecutiveSuccesses := 0 }
  else inner

def permitFailure (inner : BreakerState) (config : CircuitBreakerConfig)
    (admission : PermitAdmission) (kind : ErrorKind) (now : Nat) : BreakerState :=
  if admission.probe then
    if inner.state ≠ .halfOpen ∨ inner.probeEpoch ≠ admission.probeEpoch then inner
    else if ¬kind.tripsCircuit then { inner with probesInFlight := inner.probesInFlight - 1 }
    else
      { inner with
        consecutiveSuccesses := 0
        state := .open
        openedAtMillis := now
        probesInFlight := 0 }
  else if inner.state ≠ .closed ∨ inner.probeEpoch ≠ admission.probeEpoch ∨ ¬kind.tripsCircuit then
    inner
  else
    let inner := { inner with
      consecutiveSuccesses := 0
      consecutiveFailures := min (inner.consecutiveFailures + 1) u32Max }
    if config.failureThreshold ≤ inner.consecutiveFailures then
      { inner with state := .open, openedAtMillis := now, consecutiveFailures := 0 }
    else inner

def abandonProbe (inner : BreakerState) (admission : PermitAdmission) : BreakerState :=
  if admission.probe ∧ inner.state = .halfOpen ∧ inner.probeEpoch = admission.probeEpoch then
    { inner with probesInFlight := inner.probesInFlight - 1 }
  else inner

end BreakerState

/-! ## Permits -/

structure Permit where
  admission : PermitAdmission
  period : Nat
  deriving DecidableEq, Repr

/-- What a report says of the provider. -/
inductive Outcome where
  | success
  | tripped
  /-- A failure that does not count. -/
  | ignored
  deriving DecidableEq, Repr

def ErrorKind.outcome (kind : ErrorKind) : Outcome :=
  if kind.tripsCircuit then .tripped else .ignored

structure World where
  breaker : BreakerState
  /-- The permits that are neither reported nor dropped. -/
  permits : Table Nat Permit
  nextPermit : Nat
  period : Nat
  reports : List Outcome
  /-- When the breaker was last closed and opened. -/
  leftClosed : Option Nat
  clock : Nat

inductive Action where
  | acquire (now : Nat)
  | success (permit now : Nat)
  | failure (permit : Nat) (kind : ErrorKind) (now : Nat)
  | drop (permit : Nat)
  /-- `CircuitBreaker::state`, which refreshes too. -/
  | observe (now : Nat)
  deriving DecidableEq, Repr

inductive Answer where
  | admitted (permit : Nat)
  | rejected (detail : String)
  | state (state : CircuitState)
  | done
  | refused
  deriving DecidableEq, Repr

namespace World

def start : World := ⟨.new, ∅, 0, 0, [], none, 0⟩

/-- The breaker after a call at this time. -/
def become (w : World) (breaker : BreakerState) (now : Nat) : World :=
  if breaker.state = w.breaker.state then { w with breaker := breaker, clock := now }
  else
    { w with
      breaker := breaker
      clock := now
      period := w.period + 1
      reports := []
      leftClosed := if w.breaker.state = .closed then some now else w.leftClosed }

/-- The reports of the current period, with one more if the permit is of that period. -/
def reported (w : World) (permit : Permit) (outcome : Outcome) : List Outcome :=
  if permit.period = w.period then w.reports ++ [outcome] else w.reports

def report (w : World) (id : Nat) (permit : Permit) (outcome : Outcome) (breaker : BreakerState)
    (now : Nat) : World :=
  { w with
    permits := w.permits.erase id
    reports := w.reported permit outcome }.become breaker now

def acquire (w : World) (config : CircuitBreakerConfig) (now : Nat) : Answer × World :=
  match w.breaker.admitRequest config now with
  | (.error detail, breaker) => (.rejected detail, w.become breaker now)
  | (.ok admission, breaker) =>
    let w := w.become breaker now
    (.admitted w.nextPermit, { w with
      permits := w.permits.insert w.nextPermit ⟨admission, w.period⟩
      nextPermit := w.nextPermit + 1 })

def step (config : CircuitBreakerConfig) (w : World) : Action → Answer × World
  | .acquire now => w.acquire config now
  | .success id now =>
    match w.permits.lookup id with
    | none => (.refused, w)
    | some permit =>
      (.done, w.report id permit .success (w.breaker.permitSuccess config permit.admission) now)
  | .failure id kind now =>
    match w.permits.lookup id with
    | none => (.refused, w)
    | some permit =>
      (.done, w.report id permit kind.outcome
        (w.breaker.permitFailure config permit.admission kind now) now)
  | .drop id =>
    match w.permits.lookup id with
    | none => (.refused, w)
    | some permit =>
      (.done, { w with permits := w.permits.erase id }.become
        (w.breaker.abandonProbe permit.admission) w.clock)
  | .observe now =>
    let breaker := w.breaker.refresh config now
    (.state breaker.state, w.become breaker now)

end World

end GtaClaw.Provider
