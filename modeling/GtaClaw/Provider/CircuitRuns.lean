import GtaClaw.Provider.Circuit

/-!
# Runs of the circuit breaker

What the breaker keeps in a permit tells whether it was admitted in the current period:
epochs only grow, and within one epoch the probes come before the ordinary permits. So a
report counts when its permit is of the current period and is lost otherwise, and the
counters are about the reports of one period.
-/

namespace GtaClaw.Provider

open Lib BreakerState World
open List hiding after

/-! ## Permits of the current period -/

/-- The breaker takes the permit for one of its current state. -/
def Matches (b : BreakerState) (admission : PermitAdmission) : Prop :=
  ((b.state = .halfOpen ∧ admission.probe = true) ∨ (b.state = .closed ∧ admission.probe = false)) ∧
    b.probeEpoch = admission.probeEpoch

/-- What the breaker can tell of a permit. -/
structure Recognised (w : World) (id : Nat) (p : Permit) : Prop where
  numbered : id < w.nextPermit
  epoch : p.admission.probeEpoch ≤ w.breaker.probeEpoch
  period : p.period ≤ w.period
  /-- While the breaker is half open, its epoch has no ordinary permits yet. -/
  probe : w.breaker.state = .halfOpen → p.admission.probeEpoch = w.breaker.probeEpoch →
    p.admission.probe = true
  current : p.period = w.period ↔ Matches w.breaker p.admission

/-- **The breaker recognises the permits of the current period.** -/
def Admissions (w : World) : Prop := ∀ id p, w.permits.lookup id = some p → Recognised w id p

variable {w w' : World}

theorem Recognised.keep {id : Nat} {p : Permit} (h : Recognised w id p)
    (hnext : w.nextPermit ≤ w'.nextPermit) (hstate : w'.breaker.state = w.breaker.state)
    (hepoch : w'.breaker.probeEpoch = w.breaker.probeEpoch) (hperiod : w'.period = w.period) :
    Recognised w' id p := by
  obtain ⟨hnumbered, hepochs, hperiods, hprobe, hcurrent⟩ := h
  unfold Matches at hcurrent
  rw [← hepoch, ← hperiod, ← hstate] at *
  exact ⟨hnumbered.trans_le hnext, hepochs, hperiods, hprobe, hcurrent⟩

namespace Admissions

section

variable (h : Admissions w) (hpermits : w.permits.Shrinks w'.permits)
  (hnext : w'.nextPermit = w.nextPermit)
include h hpermits hnext

/-- The period goes on, and permits may go away. -/
theorem stay (hstate : w'.breaker.state = w.breaker.state)
    (hepoch : w'.breaker.probeEpoch = w.breaker.probeEpoch) (hperiod : w'.period = w.period) :
    Admissions w' := by
  intro id p hp
  exact (h id p (hpermits id p hp)).keep hnext.ge hstate hepoch hperiod

theorem turn (hperiod : w'.period = w.period + 1)
    (hepoch : w.breaker.probeEpoch ≤ w'.breaker.probeEpoch)
    (hhalf : w'.breaker.state = .halfOpen → w.breaker.probeEpoch < w'.breaker.probeEpoch)
    (hclosed : w'.breaker.state = .closed →
      w.breaker.state = .halfOpen ∧ w'.breaker.probeEpoch = w.breaker.probeEpoch) :
    Admissions w' := by
  intro id p hp
  obtain ⟨hnumbered, hepochs, hperiods, hprobes, -⟩ := h id p (hpermits id p hp)
  refine ⟨hnext ▸ hnumbered, by omega, by omega, fun hnow heq => ?_, ?_⟩
  · have hnew := hhalf hnow
    omega
  constructor
  · intro heq
    omega
  · rintro ⟨⟨hnow, -⟩ | ⟨hnow, hprobe⟩, heq⟩
    · have hnew := hhalf hnow
      omega
    · obtain ⟨hbefore, hsame⟩ := hclosed hnow
      rw [hprobes hbefore (by omega)] at hprobe
      cases hprobe

end

theorem insert (h : Admissions w) {admission : PermitAdmission}
    (hmatches : Matches w.breaker admission)
    (hpermits : w'.permits = w.permits.insert w.nextPermit ⟨admission, w.period⟩)
    (hnext : w'.nextPermit = w.nextPermit + 1) (hstate : w'.breaker.state = w.breaker.state)
    (hepoch : w'.breaker.probeEpoch = w.breaker.probeEpoch) (hperiod : w'.period = w.period) :
    Admissions w' := by
  intro id p hp
  rw [hpermits] at hp
  rcases Table.lookup_insert_eq_some hp with ⟨rfl, rfl⟩ | ⟨-, hold⟩
  · have hnew : Matches w'.breaker admission := by
      rw [Matches, hstate, hepoch]
      exact hmatches
    refine ⟨by omega, hnew.2.ge, hperiod.ge, fun hhalf _ => ?_, iff_of_true hperiod.symm hnew⟩
    rcases hnew.1 with ⟨-, hprobe⟩ | ⟨hclosed, -⟩
    · exact hprobe
    · cases hhalf.symm.trans hclosed
  · exact (h id p hold).keep (by omega) hstate hepoch hperiod

end Admissions

/-! ## What a call does -/

variable (w : World)

def World.liveProbes : Nat :=
  w.permits.values.countP fun p => p.admission = ⟨true, w.breaker.probeEpoch⟩

namespace World

/-- A permit is gone and the period goes on. -/
def settled (id now : Nat) (breaker : BreakerState) (reports : List Outcome) : World :=
  { w with permits := w.permits.erase id, clock := now, breaker := breaker, reports := reports }

/-- A permit is gone and a new period begins. -/
def turned (id now : Nat) (breaker : BreakerState) (leftClosed : Option Nat) : World :=
  { w with
    permits := w.permits.erase id
    clock := now
    breaker := breaker
    period := w.period + 1
    reports := []
    leftClosed := leftClosed }

variable {w : World} {id now : Nat} {p : Permit} {outcome : Outcome} {breaker : BreakerState}

theorem report_settled (h : breaker.state = w.breaker.state) :
    w.report id p outcome breaker now = w.settled id now breaker (w.reported p outcome) := by
  simp [report, become, settled, h]

theorem report_turned (h : breaker.state ≠ w.breaker.state) :
    w.report id p outcome breaker now = w.turned id now breaker
      (if w.breaker.state = .closed then some now else w.leftClosed) := by
  simp [report, become, turned, h]

end World

/-- What a report makes of the number of failures. -/
def Counts : Option Outcome → Nat → Nat → Prop
  | some .success, _, failures => failures = 0
  | some .tripped, count, failures => failures ≤ count + 1
  | _, count, failures => failures = count

/-- Everything that a report can do; a dropped permit reports nothing. -/
inductive Settles (config : CircuitBreakerConfig) (w : World) (id : Nat) (p : Permit) (now : Nat) :
    Option Outcome → World → Prop where
  /-- The permit is of an earlier period. -/
  | stale {outcome : Option Outcome} (hstale : ¬ Matches w.breaker p.admission) :
      Settles config w id p now outcome (w.settled id now w.breaker w.reports)
  /-- A probe is over, and the breaker stays half open. -/
  | probed {outcome : Option Outcome} {failures successes : Nat}
      (hmatches : Matches w.breaker p.admission) (hhalf : w.breaker.state = .halfOpen)
      (houtcome : outcome ≠ some .tripped)
      (hsuccesses : successes ≤ w.breaker.consecutiveSuccesses + outcome.toList.count .success) :
      Settles config w id p now outcome (w.settled id now
        { w.breaker with
          probesInFlight := w.breaker.probesInFlight - 1
          consecutiveFailures := failures
          consecutiveSuccesses := successes } (w.reports ++ outcome.toList))
  | recovers (hmatches : Matches w.breaker p.admission) (hhalf : w.breaker.state = .halfOpen)
      (hsuccesses : config.successThreshold ≤ w.breaker.consecutiveSuccesses + 1) :
      Settles config w id p now (some .success) (w.turned id now
        { w.breaker with
          state := .closed
          probesInFlight := 0
          consecutiveFailures := 0
          consecutiveSuccesses := 0 } w.leftClosed)
  | probeTrips (hmatches : Matches w.breaker p.admission) (hhalf : w.breaker.state = .halfOpen) :
      Settles config w id p now (some .tripped) (w.turned id now
        { w.breaker with
          state := .open
          openedAtMillis := now
          probesInFlight := 0
          consecutiveSuccesses := 0 } w.leftClosed)
  /-- An ordinary report, and the breaker stays closed. -/
  | counted {outcome : Option Outcome} {failures successes : Nat}
      (hmatches : Matches w.breaker p.admission) (hclosed : w.breaker.state = .closed)
      (hfailures : Counts outcome w.breaker.consecutiveFailures failures) :
      Settles config w id p now outcome (w.settled id now
        { w.breaker with
          consecutiveFailures := failures
          consecutiveSuccesses := successes } (w.reports ++ outcome.toList))
  | trips (hmatches : Matches w.breaker p.admission) (hclosed : w.breaker.state = .closed)
      (hfailures : config.failureThreshold ≤ w.breaker.consecutiveFailures + 1) :
      Settles config w id p now (some .tripped) (w.turned id now
        { w.breaker with
          state := .open
          openedAtMillis := now
          consecutiveFailures := 0
          consecutiveSuccesses := 0 } (some now))

section Runs

variable {config : CircuitBreakerConfig} {w w' : World} {id now : Nat} {p : Permit}
  {outcome : Option Outcome} {a : Action}

theorem Admissions.reported (h : Admissions w) (hp : w.permits.lookup id = some p)
    (hmatches : Matches w.breaker p.admission) (outcome : Outcome) :
    w.reported p outcome = w.reports ++ [outcome] := by
  rw [World.reported, if_pos ((h id p hp).current.mpr hmatches)]

/-- A report that leaves the breaker alone because it comes too late. -/
theorem settles_stale (h : Admissions w) (hp : w.permits.lookup id = some p)
    (hstale : ¬ Matches w.breaker p.admission) (outcome : Outcome) :
    Settles config w id p now (some outcome) (w.report id p outcome w.breaker now) := by
  have hperiod : p.period ≠ w.period := fun heq => hstale ((h id p hp).current.mp heq)
  rw [report_settled (by rfl), reported, if_neg hperiod]
  exact .stale hstale

theorem Matches.of_probe (h : p.admission.probe = true ∧ w.breaker.state = .halfOpen
      ∧ w.breaker.probeEpoch = p.admission.probeEpoch) : Matches w.breaker p.admission :=
  ⟨.inl ⟨h.2.1, h.1⟩, h.2.2⟩

theorem settles_success (h : Admissions w) (hp : w.permits.lookup id = some p) (now : Nat) :
    Settles config w id p now (some .success)
      (w.report id p .success (w.breaker.permitSuccess config p.admission) now) := by
  fun_cases permitSuccess w.breaker config p.admission with
  | case1 hprobe inner hdone =>
    have hhalf := hprobe.2.1
    rw [report_turned (by simp [hhalf]), if_neg (by simp [hhalf])]
    exact .recovers (.of_probe hprobe) hhalf (hdone.trans (min_le_left _ _))
  | case2 hprobe inner hdone =>
    have hmatches := Matches.of_probe hprobe
    rw [report_settled (by rfl), h.reported hp hmatches]
    exact .probed hmatches hprobe.2.1 (by simp) (min_le_left _ _)
  | case3 _ hordinary =>
    obtain ⟨hprobe, hclosed, hepoch⟩ := hordinary
    have hmatches : Matches w.breaker p.admission := ⟨.inr ⟨hclosed, by simpa using hprobe⟩, hepoch⟩
    rw [report_settled (by rfl), h.reported hp hmatches]
    exact .counted hmatches hclosed rfl
  | case4 hprobe hordinary =>
    refine settles_stale h hp ?_ .success
    rintro ⟨⟨hhalf, hyes⟩ | ⟨hclosed, hno⟩, hepoch⟩
    · exact hprobe ⟨hyes, hhalf, hepoch⟩
    · exact hordinary ⟨by simp [hno], hclosed, hepoch⟩

theorem outcome_of_trips {kind : ErrorKind} (h : kind.tripsCircuit = true) :
    kind.outcome = .tripped := if_pos h

theorem settles_failure (h : Admissions w) (hp : w.permits.lookup id = some p) (kind : ErrorKind)
    (now : Nat) :
    Settles config w id p now (some kind.outcome)
      (w.report id p kind.outcome (w.breaker.permitFailure config p.admission kind now) now) := by
  fun_cases permitFailure w.breaker config p.admission kind now with
  | case1 hprobe hother =>
    refine settles_stale h hp ?_ _
    rintro ⟨⟨hhalf, -⟩ | ⟨-, hno⟩, hepoch⟩
    · exact hother.elim (· hhalf) (· hepoch)
    · cases hprobe.symm.trans hno
  | case2 hprobe hcurrent htrips =>
    rw [not_or, not_not, not_not] at hcurrent
    have hmatches := Matches.of_probe ⟨hprobe, hcurrent⟩
    rw [report_settled (by rfl), h.reported hp hmatches]
    exact .probed hmatches hcurrent.1 (by simp [ErrorKind.outcome, htrips]) (by simp)
  | case3 hprobe hcurrent htrips =>
    rw [not_or, not_not, not_not] at hcurrent
    have hhalf := hcurrent.1
    rw [outcome_of_trips (not_not.mp htrips), report_turned (by simp [hhalf]),
      if_neg (by simp [hhalf])]
    exact .probeTrips (.of_probe ⟨hprobe, hcurrent⟩) hhalf
  | case4 hprobe hother =>
    by_cases hmatches : Matches w.breaker p.admission
    · rcases hmatches.1 with ⟨-, hyes⟩ | ⟨hclosed, -⟩
      · exact absurd hyes hprobe
      have htrips : ¬kind.tripsCircuit := by simpa [hclosed, hmatches.2] using hother
      rw [report_settled (by rfl), h.reported hp hmatches]
      exact .counted hmatches hclosed (by simp [ErrorKind.outcome, htrips, Counts])
    · exact settles_stale h hp hmatches _
  | case5 hprobe hcurrent inner hfull =>
    simp only [not_or, not_not] at hcurrent
    have hclosed := hcurrent.1
    rw [outcome_of_trips hcurrent.2.2, report_turned (by simp [hclosed]), if_pos hclosed]
    exact .trips ⟨.inr ⟨hclosed, by simpa using hprobe⟩, hcurrent.2.1⟩ hclosed
      (hfull.trans (min_le_left _ _))
  | case6 hprobe hcurrent inner hfull =>
    simp only [not_or, not_not] at hcurrent
    have hmatches : Matches w.breaker p.admission :=
      ⟨.inr ⟨hcurrent.1, by simpa using hprobe⟩, hcurrent.2.1⟩
    rw [outcome_of_trips hcurrent.2.2, report_settled (by rfl), h.reported hp hmatches]
    exact .counted hmatches hcurrent.1 (min_le_left _ _)

theorem settles_drop :
    Settles config w id p w.clock none
      ({ w with permits := w.permits.erase id }.become
        (w.breaker.abandonProbe p.admission) w.clock) := by
  have hsettled : ∀ b : BreakerState, b.state = w.breaker.state →
      { w with permits := w.permits.erase id }.become b w.clock
        = w.settled id w.clock b (w.reports ++ []) := by
    intro b hb
    simp [become, settled, hb]
  fun_cases abandonProbe w.breaker p.admission with
  | case1 hprobe =>
    rw [hsettled _ (by rfl)]
    exact .probed (.of_probe hprobe) hprobe.2.1 (by simp) (by simp)
  | case2 hprobe =>
    rw [hsettled _ (by rfl)]
    by_cases hmatches : Matches w.breaker p.admission
    · rcases hmatches.1 with ⟨hhalf, hyes⟩ | ⟨hclosed, -⟩
      · exact absurd ⟨hyes, hhalf, hmatches.2⟩ hprobe
      · exact .counted hmatches hclosed rfl
    · rw [append_nil]
      exact .stale hmatches

/-! ## The invariant -/

def relevant (reports : List Outcome) : List Outcome := reports.filter (· ≠ .ignored)

/-- The probes in flight are those that are counted. -/
structure ProbesOk (config : CircuitBreakerConfig) (w : World) : Prop where
  counted : w.breaker.state = .halfOpen → w.breaker.probesInFlight = w.liveProbes
  none : w.breaker.state ≠ .halfOpen → w.breaker.probesInFlight = 0
  bounded : w.breaker.probesInFlight ≤ config.halfOpenProbes

structure Inv (config : CircuitBreakerConfig) (w : World) : Prop where
  admissions : Admissions w
  probes : ProbesOk config w
  /-- The last reports of a closed period are the failures that are counted. -/
  failures : w.breaker.state = .closed → ∃ before,
    relevant w.reports = before ++ List.replicate w.breaker.consecutiveFailures .tripped
  successes : w.breaker.state = .halfOpen →
    .tripped ∉ w.reports ∧ w.breaker.consecutiveSuccesses ≤ w.reports.count .success
  opened : w.breaker.state = .open →
    w.breaker.openedAtMillis ≤ w.clock ∧ ∀ t ∈ w.leftClosed, t ≤ w.breaker.openedAtMillis
  elapsed : w.breaker.state ≠ .open → ∀ t ∈ w.leftClosed, t + config.window ≤ w.clock

theorem inv_start (config : CircuitBreakerConfig) : Inv config .start where
  admissions := nofun
  probes := ⟨nofun, fun _ => rfl, Nat.zero_le _⟩
  failures := by intro _; exact ⟨[], rfl⟩
  successes := nofun
  opened := nofun
  elapsed := by intro _ t ht; cases ht

theorem liveProbes_settled (hp : w.permits.lookup id = some p) (hhalf : w.breaker.state = .halfOpen)
    (hpermits : w'.permits = w.permits.erase id)
    (hepoch : w'.breaker.probeEpoch = w.breaker.probeEpoch) :
    (Matches w.breaker p.admission → w'.liveProbes + 1 = w.liveProbes) ∧
      (¬ Matches w.breaker p.admission → w'.liveProbes = w.liveProbes) := by
  have hadmission : p.admission = ⟨true, w.breaker.probeEpoch⟩ ↔ Matches w.breaker p.admission := by
    constructor
    · intro heq
      rw [heq]
      exact ⟨.inl ⟨hhalf, rfl⟩, rfl⟩
    · rintro ⟨⟨-, hprobe⟩ | ⟨hclosed, -⟩, heq⟩
      · rw [heq, ← hprobe]
      · cases hhalf.symm.trans hclosed
  have h := Table.countP_erase (fun p => p.admission = ⟨true, w.breaker.probeEpoch⟩) hp
  unfold liveProbes
  rw [hpermits, hepoch]
  exact ⟨fun hm => by simpa [hadmission.mpr hm] using h,
    fun hm => by simpa [mt hadmission.mp hm] using h⟩

theorem relevant_counted {reports : List Outcome} {failures count : Nat}
    (h : ∃ before, relevant reports = before ++ replicate count .tripped)
    (hfailures : Counts outcome count failures) :
    ∃ before, relevant (reports ++ outcome.toList)
      = before ++ replicate failures .tripped := by
  obtain ⟨before, hbefore⟩ := h
  have happend : relevant (reports ++ outcome.toList)
      = before ++ replicate count .tripped ++ relevant outcome.toList := by
    rw [← hbefore]
    exact filter_append _ _
  rw [happend]
  match outcome, hfailures with
  | none, hfailures | some .ignored, hfailures =>
    refine ⟨before, ?_⟩
    rw [show failures = count from hfailures]
    simp [relevant]
  | some .success, hfailures =>
    refine ⟨before ++ replicate count .tripped ++ [.success], ?_⟩
    rw [show failures = 0 from hfailures]
    simp [relevant]
  | some .tripped, hfailures =>
    have hle : failures ≤ count + 1 := hfailures
    -- the last `failures` of the `count + 1` failures
    refine ⟨before ++ replicate (count + 1 - failures) .tripped, ?_⟩
    have hsplit : replicate (count + 1 - failures) Outcome.tripped
        ++ replicate failures .tripped = replicate count .tripped ++ [.tripped] := by
      rw [← replicate_add, ← replicate_succ']
      congr 1
      omega
    rw [append_assoc, append_assoc, hsplit]
    rfl

/-- A new period begins: it has no reports, and no permit of it is out yet. -/
theorem Inv.turn (h : Inv config w) {permits : Table Nat Permit} {b : BreakerState}
    {leftClosed : Option Nat} (hpermits : w.permits.Shrinks permits) (hprobes : b.probesInFlight = 0)
    (hepoch : w.breaker.probeEpoch ≤ b.probeEpoch)
    (hhalf : b.state = .halfOpen → w.breaker.probeEpoch < b.probeEpoch ∧ b.consecutiveSuccesses = 0)
    (hclosed : b.state = .closed → w.breaker.state = .halfOpen ∧
      b.probeEpoch = w.breaker.probeEpoch ∧ b.consecutiveFailures = 0)
    (hopened : b.state = .open → b.openedAtMillis ≤ now ∧ ∀ t ∈ leftClosed, t ≤ b.openedAtMillis)
    (helapsed : b.state ≠ .open → ∀ t ∈ leftClosed, t + config.window ≤ now) :
    Inv config ⟨b, permits, w.nextPermit, w.period + 1, [], leftClosed, now⟩ where
  admissions := h.admissions.turn hpermits rfl rfl hepoch (fun hnow => (hhalf hnow).1)
    fun hnow => ⟨(hclosed hnow).1, (hclosed hnow).2.1⟩
  probes := by
    refine ⟨fun hnow => ?_, fun _ => hprobes, hprobes.trans_le (Nat.zero_le _)⟩
    have hnew := (hhalf hnow).1
    refine hprobes.trans (countP_eq_zero.mpr fun p hp => ?_).symm
    obtain ⟨id, hlookup⟩ := Table.mem_values.mp hp
    have hold := (h.admissions id p (hpermits id p hlookup)).epoch
    rw [decide_eq_true_eq]
    intro heq
    rw [heq] at hold
    change b.probeEpoch ≤ w.breaker.probeEpoch at hold
    omega
  failures := by
    intro hnow
    refine ⟨[], ?_⟩
    rw [(hclosed hnow).2.2]
    rfl
  successes := by
    intro hnow
    exact ⟨not_mem_nil, Nat.le_of_eq (hhalf hnow).2⟩
  opened := hopened
  elapsed := helapsed

theorem Inv.later (h : Inv config w) (hnow : w.clock ≤ now) : Inv config { w with clock := now } := by
  refine { h with
    admissions := h.admissions.stay (Table.Shrinks.refl _) rfl rfl rfl rfl
    probes := { h.probes with }
    opened := fun hopen => ?_
    elapsed := fun hstate t ht => ?_ }
  · obtain ⟨hle, hleft⟩ := h.opened hopen
    exact ⟨hle.trans hnow, hleft⟩
  · exact (h.elapsed hstate t ht).trans hnow

theorem Inv.settle (h : Inv config w) (hp : w.permits.lookup id = some p) (hnow : w.clock ≤ now)
    (hsettles : Settles config w id p now outcome w') : Inv config w' := by
  have hgone : w.permits.Shrinks (w.permits.erase id) := Table.shrinks_erase _ _
  have hlater := h.later hnow
  have helapsed : w.breaker.state ≠ .open → ∀ t ∈ w.leftClosed, t + config.window ≤ now :=
    hlater.elapsed
  cases hsettles with
  | stale hstale =>
    refine { hlater with
      admissions := h.admissions.stay hgone rfl rfl rfl rfl
      probes := { h.probes with counted := fun hhalf => ?_ } }
    refine (h.probes.counted hhalf).trans (Eq.symm ?_)
    refine (liveProbes_settled hp hhalf ?_ ?_).2 hstale <;> rfl
  | @probed outcome failures successes hmatches hhalf houtcome hsuccesses =>
    refine ⟨h.admissions.stay hgone rfl rfl rfl rfl, ⟨fun _ => ?_, (absurd hhalf ·),
      (Nat.sub_le _ _).trans h.probes.bounded⟩, fun hclosed => ?_, fun _ => ?_, fun hopen => ?_,
      fun _ => helapsed (by simp [hhalf])⟩
    · refine Nat.sub_eq_of_eq_add ((h.probes.counted hhalf).trans (Eq.symm ?_))
      refine (liveProbes_settled hp hhalf ?_ ?_).1 hmatches <;> rfl
    · cases hhalf.symm.trans hclosed
    · obtain ⟨htripped, hcount⟩ := h.successes hhalf
      constructor
      · intro hmem
        rcases mem_append.mp hmem with hold | hnew
        · exact htripped hold
        · exact houtcome (Option.mem_toList.mp hnew)
      · change successes ≤ (w.reports ++ outcome.toList).count .success
        rw [count_append]
        omega
    · cases hhalf.symm.trans hopen
  | recovers hmatches hhalf hsuccesses =>
    exact h.turn hgone rfl le_rfl (by simp) (fun _ => ⟨hhalf, rfl, rfl⟩) (by simp)
      fun _ => helapsed (by simp [hhalf])
  | probeTrips hmatches hhalf =>
    refine h.turn hgone rfl le_rfl (by simp) (by simp) (fun _ => ⟨le_rfl, ?_⟩)
      (by simp)
    intro t ht
    have hle := helapsed (by simp [hhalf]) t ht
    change t ≤ now
    omega
  | counted hmatches hclosed hfailures =>
    refine ⟨h.admissions.stay hgone rfl rfl rfl rfl, ⟨fun hhalf => ?_, h.probes.none,
      h.probes.bounded⟩, fun _ => relevant_counted (h.failures hclosed) hfailures,
      fun hhalf => ?_, fun hopen => ?_, fun _ => helapsed (by simp [hclosed])⟩
    · cases hclosed.symm.trans hhalf
    · cases hclosed.symm.trans hhalf
    · cases hclosed.symm.trans hopen
  | trips hmatches hclosed hfailures =>
    have hprobes := h.probes.none (by simp [hclosed])
    refine h.turn hgone hprobes le_rfl (by simp) (by simp) (fun _ => ⟨le_rfl, ?_⟩)
      (by simp)
    intro t ht
    cases ht
    exact le_rfl

/-- The open window is over: a new epoch begins. -/
def Refreshes (config : CircuitBreakerConfig) (w : World) (now : Nat) : Prop :=
  w.breaker.state = .open ∧ config.window ≤ now - w.breaker.openedAtMillis

theorem Inv.refresh (h : Inv config w) (hnow : w.clock ≤ now)
    (hrange : Refreshes config w now → w.breaker.probeEpoch < u64Max) :
    Inv config (w.become (w.breaker.refresh config now) now) := by
  by_cases hdue : Refreshes config w now
  · have hepoch := hrange hdue
    obtain ⟨hopen, hwindow⟩ := hdue
    obtain ⟨hle, hleft⟩ := h.opened hopen
    have hw : w.become (w.breaker.refresh config now) now
        = { w with
            breaker := { w.breaker with
              state := .halfOpen
              probesInFlight := 0
              consecutiveSuccesses := 0
              probeEpoch := w.breaker.probeEpoch + 1 }
            clock := now
            period := w.period + 1
            reports := [] } := by
      have hmin : min (w.breaker.probeEpoch + 1) u64Max = w.breaker.probeEpoch + 1 := by omega
      simp [World.become, BreakerState.refresh, hopen, hwindow, hmin]
    rw [hw]
    refine h.turn (Table.Shrinks.refl _) rfl (Nat.le_succ _) (fun _ => ⟨Nat.lt_succ_self _, rfl⟩)
      (by simp) (by simp) fun _ t ht => ?_
    have ht' := hleft t ht
    omega
  · have hsame : w.breaker.refresh config now = w.breaker := by
      unfold BreakerState.refresh
      split
      · rename_i hopen
        rw [if_neg fun hwindow => hdue ⟨hopen, hwindow⟩]
      · rfl
    have hw : w.become (w.breaker.refresh config now) now = { w with clock := now } := by
      rw [hsame, World.become, if_pos rfl]
    rw [hw]
    exact h.later hnow

/-- Everything that an `acquire` can do once the breaker is refreshed. -/
inductive Acquires (config : CircuitBreakerConfig) (w : World) : Answer × World → Prop where
  | rejected (detail : String) : Acquires config w (.rejected detail, w)
  | ordinary (hclosed : w.breaker.state = .closed) :
      Acquires config w (.admitted w.nextPermit,
        { w with
          permits := w.permits.insert w.nextPermit ⟨⟨false, w.breaker.probeEpoch⟩, w.period⟩
          nextPermit := w.nextPermit + 1 })
  | probe (hhalf : w.breaker.state = .halfOpen)
      (hroom : w.breaker.probesInFlight < config.halfOpenProbes) :
      Acquires config w (.admitted w.nextPermit,
        { w with
          breaker := { w.breaker with probesInFlight := w.breaker.probesInFlight + 1 }
          permits := w.permits.insert w.nextPermit ⟨⟨true, w.breaker.probeEpoch⟩, w.period⟩
          nextPermit := w.nextPermit + 1 })

theorem World.become_breaker (w : World) (b : BreakerState) (now : Nat) :
    (w.become b now).breaker = b := by
  unfold become
  split <;> rfl

theorem World.become_clock (w : World) (b : BreakerState) (now : Nat) :
    (w.become b now).clock = now := by
  unfold become
  split <;> rfl

theorem World.become_probes (w : World) (b : BreakerState) (now probes : Nat) :
    w.become { b with probesInFlight := probes } now
      = { w.become b now with breaker := { b with probesInFlight := probes } } := by
  unfold become
  by_cases hstate : b.state = w.breaker.state
  · rw [if_pos hstate, if_pos hstate]
  · rw [if_neg hstate, if_neg hstate]

theorem acquires (config : CircuitBreakerConfig) (w : World) (now : Nat) :
    Acquires config (w.become (w.breaker.refresh config now) now) (w.acquire config now) := by
  unfold acquire
  fun_cases admitRequest w.breaker config now with
  | case1 b hclosed =>
    have hbreaker := w.become_breaker b now
    have hepoch : (w.become b now).breaker.probeEpoch = b.probeEpoch := by rw [hbreaker]
    have h : Acquires config (w.become b now) _ := .ordinary (by rw [hbreaker, hclosed])
    rw [hepoch] at h
    exact h
  | case3 b hhalf hroom =>
    have hbreaker := w.become_breaker b now
    have h : Acquires config (w.become b now) _ := .probe (by rw [hbreaker, hhalf])
      (by rw [hbreaker]; omega)
    rw [hbreaker] at h
    dsimp only
    rw [w.become_probes b now (b.probesInFlight + 1)]
    exact h
  | case2 | case4 => exact .rejected _

theorem Inv.acquire (h : Inv config w) {result : Answer × World}
    (hacquires : Acquires config w result) : Inv config result.2 := by
  have hfresh : w.permits.lookup w.nextPermit = none := by
    cases hlookup : w.permits.lookup w.nextPermit with
    | none => rfl
    | some p =>
      have hlt := (h.admissions _ p hlookup).numbered
      omega
  cases hacquires with
  | rejected detail => exact h
  | ordinary hclosed =>
    refine { h with
      admissions := h.admissions.insert ⟨.inr ⟨hclosed, rfl⟩, rfl⟩ rfl rfl rfl rfl rfl
      probes := { h.probes with counted := fun hhalf => ?_ } }
    cases hhalf.symm.trans hclosed
  | probe hhalf hroom =>
    refine { h with
      admissions := h.admissions.insert ⟨.inl ⟨hhalf, rfl⟩, rfl⟩ rfl rfl rfl rfl rfl
      probes := ⟨fun _ => ?_, (absurd hhalf ·), hroom⟩ }
    have hcount := Table.countP_insert (v := ⟨⟨true, w.breaker.probeEpoch⟩, w.period⟩)
      (fun p => p.admission = ⟨true, w.breaker.probeEpoch⟩) hfresh
    rw [if_pos (by simp)] at hcount
    change w.breaker.probesInFlight + 1 = (Table.values (w.permits.insert w.nextPermit
      ⟨⟨true, w.breaker.probeEpoch⟩, w.period⟩)).countP _
    rw [hcount, h.probes.counted hhalf]
    rfl

/-! ## Runs -/

variable (w) in
def Timely : Action → Prop
  | .acquire now | .success _ now | .failure _ _ now | .observe now => w.clock ≤ now
  | .drop _ => True

def InRange (config : CircuitBreakerConfig) (w : World) : Action → Prop
  | .acquire now | .observe now => Refreshes config w now → w.breaker.probeEpoch < u64Max
  | _ => True

namespace World

variable (w) in
def permitOf : Action → Option Permit
  | .success id _ | .failure id _ _ | .drop id => w.permits.lookup id
  | _ => none

variable (w) in
/-- The reports of the current period, the one that is being made included. -/
def reportsWith (a : Action) : List Outcome :=
  match w.permitOf a, a with
  | some p, .success _ _ => w.reported p .success
  | some p, .failure _ kind _ => w.reported p kind.outcome
  | _, _ => w.reports

end World

/-- An action that gives a permit back. -/
theorem settles_step (h : Admissions w) (hpermit : w.permitOf a = some p) (hnow : Timely w a) :
    ∃ id now outcome, w.permits.lookup id = some p ∧ w.clock ≤ now ∧
      Settles config w id p now outcome (w.step config a).2 ∧
      (Matches w.breaker p.admission → w.reportsWith a = w.reports ++ outcome.toList) := by
  cases a with
  | acquire now | observe now => cases hpermit
  | success id now =>
    have hp : w.permits.lookup id = some p := hpermit
    simp only [step, reportsWith, permitOf, hp]
    exact ⟨id, now, _, hp, hnow, settles_success h hp now, (h.reported hp · .success)⟩
  | failure id kind now =>
    have hp : w.permits.lookup id = some p := hpermit
    simp only [step, reportsWith, permitOf, hp]
    exact ⟨id, now, _, hp, hnow, settles_failure h hp kind now, (h.reported hp · kind.outcome)⟩
  | drop id =>
    have hp : w.permits.lookup id = some p := hpermit
    simp only [step, reportsWith, permitOf, hp]
    exact ⟨id, w.clock, none, hp, le_rfl, settles_drop, fun _ => (append_nil _).symm⟩

theorem step_of_permitOf_none (hpermit : w.permitOf a = none) :
    ((∀ now, a ≠ .acquire now) ∧ (w.step config a).2 = w) ∨
      (∃ now, a = .acquire now) ∨ ∃ now, a = .observe now := by
  cases a with
  | acquire now => exact .inr (.inl ⟨now, rfl⟩)
  | observe now => exact .inr (.inr ⟨now, rfl⟩)
  | success id now | failure id kind now | drop id =>
    have hp : w.permits.lookup id = none := hpermit
    refine .inl ⟨nofun, ?_⟩
    simp only [step, hp]

theorem inv_step (config : CircuitBreakerConfig) (w : World) (a : Action) (h : Inv config w)
    (hok : Timely w a ∧ InRange config w a) : Inv config (w.step config a).2 := by
  obtain ⟨hnow, hrange⟩ := hok
  cases hp : w.permitOf a with
  | some p =>
    obtain ⟨id, now, outcome, hlookup, hnow, hsettles, -⟩ := settles_step h.admissions hp hnow
    exact h.settle hlookup hnow hsettles
  | none =>
    rcases step_of_permitOf_none hp with ⟨-, heq⟩ | ⟨now, rfl⟩ | ⟨now, rfl⟩
    · rw [heq]
      exact h
    · exact (h.refresh hnow hrange).acquire (acquires config w now)
    · exact h.refresh hnow hrange

/-- What every step of the breaker keeps to. -/
structure StepOk (config : CircuitBreakerConfig) (w : World) (a : Action) : Prop where
  /-- A permit of an earlier period changes nothing. -/
  stale : ∀ p ∈ w.permitOf a, p.period ≠ w.period → (w.step config a).2.breaker = w.breaker
  /-- The breaker opens after so many failures in a row. -/
  leaves : w.breaker.state = .closed → (w.step config a).2.breaker.state ≠ .closed →
    ∃ before, relevant (w.reportsWith a) = before ++ List.replicate config.failureThreshold .tripped
  /-- Then it admits nothing for a while. -/
  waits : ∀ now id, a = .acquire now → (w.step config a).1 = .admitted id →
    ∀ t ∈ w.leftClosed, t + config.window ≤ now
  /-- It closes after so many probes of one epoch, none of which failed. -/
  returns : w.breaker.state ≠ .closed → (w.step config a).2.breaker.state = .closed →
    w.breaker.state = .halfOpen ∧ .tripped ∉ w.reportsWith a ∧
      config.successThreshold ≤ (w.reportsWith a).count .success

theorem refresh_state (config : CircuitBreakerConfig) (b : BreakerState) (now : Nat) :
    (b.refresh config now).state = .closed ↔ b.state = .closed := by
  unfold refresh
  split
  · rename_i hopen
    split
    · simp [hopen]
    · rfl
  · rfl

theorem Acquires.state {result : Answer × World} (h : Acquires config w result) :
    result.2.breaker.state = w.breaker.state := by
  cases h with
  | rejected detail | ordinary hclosed | probe hhalf hroom => rfl

theorem Inv.admitted (h : Inv config w) (hnow : w.clock ≤ now)
    (hrange : Refreshes config w now → w.breaker.probeEpoch < u64Max) {permit : Nat}
    (hadmitted : (w.acquire config now).1 = .admitted permit) :
    ∀ t ∈ w.leftClosed, t + config.window ≤ now := by
  have hinv := h.refresh hnow hrange
  have hacquires := acquires config w now
  generalize hv : w.become (w.breaker.refresh config now) now = v at hinv hacquires
  have hclock : v.clock = now := hv ▸ w.become_clock _ now
  have hopen : v.breaker.state ≠ .open := by
    generalize w.acquire config now = result at hadmitted hacquires
    cases hacquires with
    | rejected detail => cases hadmitted
    | ordinary hclosed => simp [hclosed]
    | probe hhalf hroom => simp [hhalf]
  intro t ht
  have hleft : t ∈ v.leftClosed := by
    rw [← hv]
    unfold become
    split
    · exact ht
    rename_i hne
    -- the breaker was open, so the last trip stands
    have hnot : w.breaker.state ≠ .closed := by
      intro hclosed
      exact hne (((refresh_state config w.breaker now).mpr hclosed).trans hclosed.symm)
    simpa [hnot] using ht
  have helapsed := hinv.elapsed hopen t hleft
  omega

/-- A step that gives a permit back. -/
theorem Inv.stepOk_report (h : Inv config w)
    (hp : w.permits.lookup id = some p) (hpermit : w.permitOf a = some p)
    (hsettles : Settles config w id p now outcome (w.step config a).2)
    (hreports : Matches w.breaker p.admission → w.reportsWith a = w.reports ++ outcome.toList)
    (hacquire : ∀ now, a ≠ .acquire now) : StepOk config w a := by
  refine ⟨fun q hq hne => ?_, fun hclosed hleft => ?_, fun now permit hnow =>
    absurd hnow (hacquire now), fun hnot hback => ?_⟩
  · rw [hpermit] at hq
    cases hq
    generalize (w.step config a).2 = w' at hsettles ⊢
    cases hsettles with
    | stale => rfl
    | probed hmatches | recovers hmatches | probeTrips hmatches | counted hmatches
    | trips hmatches => exact absurd ((h.admissions id p hp).current.mpr hmatches) hne
  · generalize (w.step config a).2 = w' at hsettles hleft
    cases hsettles with
    | stale | probed | counted => exact absurd hclosed hleft
    | recovers => exact absurd rfl hleft
    | probeTrips _ hhalf => cases hhalf.symm.trans hclosed
    | trips hmatches _ hfailures =>
      rw [hreports hmatches]
      exact relevant_counted (h.failures hclosed) hfailures
  · generalize (w.step config a).2 = w' at hsettles hback
    cases hsettles with
    | stale | probed | counted => exact absurd hback hnot
    | recovers hmatches hhalf hsuccesses =>
      obtain ⟨htripped, hcount⟩ := h.successes hhalf
      rw [hreports hmatches]
      refine ⟨hhalf, ?_, ?_⟩
      · simpa using htripped
      · simp
        omega
    | probeTrips | trips => cases hback

/-- A step that gives no permit back and leaves the state as it is, or only refreshes it. -/
theorem stepOk_of_state (hpermit : w.permitOf a = none)
    (hstate : (w.step config a).2.breaker.state = .closed ↔ w.breaker.state = .closed)
    (hwaits : ∀ now id, a = .acquire now → (w.step config a).1 = .admitted id →
      ∀ t ∈ w.leftClosed, t + config.window ≤ now) : StepOk config w a where
  stale := by
    intro p hp
    rw [hpermit] at hp
    cases hp
  leaves := fun hclosed hleft => absurd (hstate.mpr hclosed) hleft
  waits := hwaits
  returns := fun hnot hback => absurd (hstate.mp hback) hnot

theorem Inv.stepOk (h : Inv config w) (a : Action) (hok : Timely w a ∧ InRange config w a) :
    StepOk config w a := by
  obtain ⟨hnow, hrange⟩ := hok
  cases hp : w.permitOf a with
  | some p =>
    obtain ⟨id, now, outcome, hlookup, -, hsettles, hreports⟩ := settles_step h.admissions hp hnow
    refine h.stepOk_report hlookup hp hsettles hreports ?_
    rintro now rfl
    cases hp
  | none =>
    rcases step_of_permitOf_none hp with ⟨hother, heq⟩ | ⟨now, rfl⟩ | ⟨now, rfl⟩
    · exact stepOk_of_state hp (by rw [heq]) (fun now _ ha => absurd ha (hother now))
    · refine stepOk_of_state rfl ?_ ?_
      · show (w.acquire config now).2.breaker.state = .closed ↔ _
        rw [(acquires config w now).state, become_breaker]
        exact refresh_state config w.breaker now
      intro now' permit heq hadmitted
      cases heq
      exact h.admitted hnow hrange hadmitted
    · refine stepOk_of_state rfl ?_ (by simp)
      change (w.become (w.breaker.refresh config now) now).breaker.state = .closed ↔ _
      rw [become_breaker]
      exact refresh_state config w.breaker now

end Runs

/-- **The circuit breaker, driven through permits**, in runs with fewer than 2^64 half-open
epochs and with the open duration counted in whole milliseconds. -/
theorem breaker_runs (config : CircuitBreakerConfig) (acts : List Action)
    (h : Along (World.step config) (fun w a => Timely w a ∧ InRange config w a) .start acts) :
    ProbesOk config (after (World.step config) .start acts) ∧
    Along (World.step config) (StepOk config) .start acts :=
  ⟨(after_inv (inv_step config) acts _ (inv_start config) h).probes,
    Along.of_inv (inv_step config) (fun _ a hinv hok => hinv.stepOk a hok) acts _
      (inv_start config) h⟩

instance instDecidableTimely (w : World) (a : Action) : Decidable (Timely w a) := by
  cases a <;> dsimp only [Timely] <;> infer_instance

instance instDecidableInRange (config : CircuitBreakerConfig) (w : World) (a : Action) :
    Decidable (InRange config w a) := by
  cases a <;> dsimp only [InRange, Refreshes] <;> infer_instance

abbrev twoFailures : CircuitBreakerConfig := ⟨2, 10 ^ 9, 1, 2⟩

/-- The breaker trips, a late success is lost, and two probes close it again. -/
abbrev recovery : List Action :=
  [.acquire 0, .acquire 0, .acquire 1, .failure 0 .server 2, .failure 1 .timeout 3, .success 2 4,
    .acquire 5, .acquire 1003, .acquire 1003, .success 3 1004, .acquire 1005, .success 4 1006]

theorem breaker_runs_recovery :
    ((after (World.step twoFailures) .start recovery).breaker.state = .closed ∧
      (after (World.step twoFailures) .start recovery).breaker.probeEpoch = 1) ∧
    ProbesOk twoFailures (after (World.step twoFailures) .start recovery) ∧
    Along (World.step twoFailures) (StepOk twoFailures) .start recovery :=
  ⟨by decide +kernel, breaker_runs twoFailures recovery (by decide +kernel)⟩

/-! ### Where the bounds come from -/

/-- Every failure trips, every probe closes, and there is no open window. -/
abbrev hasty : CircuitBreakerConfig := ⟨1, 0, 1, 1⟩

/-- One trip and one recovery, with the permits `k` and `k + 1`. -/
def cycle (k : Nat) : List Action :=
  [.acquire 0, .failure k .server 0, .acquire 0, .success (k + 1) 0]

theorem hasty_window : hasty.window = 0 := by decide

/-- The breaker is closed again and it is still the first millisecond. -/
structure Idle (epoch permits : Nat) (w : World) : Prop where
  breaker : w.breaker = ⟨.closed, 0, 0, 0, 0, epoch⟩
  nextPermit : w.nextPermit = permits
  clock : w.clock = 0

theorem after_cycle {w : World} {e k : Nat} (h : Idle e k w) :
    Along (step hasty) Timely w (cycle k) ∧
      Idle (min (e + 1) u64Max) (k + 2) (after (step hasty) w (cycle k)) := by
  have hu32 : min 1 u32Max = 1 := by decide
  obtain ⟨b, permits, next, period, reports, left, clock⟩ := w
  obtain ⟨rfl, rfl, rfl⟩ := h
  refine ⟨?_, ?_, ?_, ?_⟩
  all_goals simp [cycle, after, Along, Timely, step, acquire, admitRequest, refresh,
    become, report, permitFailure, permitSuccess,
    ErrorKind.tripsCircuit, hasty_window, hu32]

/-- That many cycles, from the start. -/
def cycles : Nat → List Action
  | 0 => []
  | n + 1 => cycles n ++ cycle (2 * n)

theorem after_cycles : ∀ n, n ≤ u64Max →
    Along (step hasty) Timely .start (cycles n) ∧
      Idle n (2 * n) (after (step hasty) .start (cycles n))
  | 0, _ => ⟨trivial, rfl, rfl, rfl⟩
  | n + 1, hn => by
    obtain ⟨htimely, hidle⟩ := after_cycles n (by omega)
    obtain ⟨htimely', hidle'⟩ := after_cycle hidle
    rw [Nat.min_eq_left hn] at hidle'
    rw [cycles, after_append]
    exact ⟨htimely.append htimely', hidle'⟩

/-- In the last epoch, two permits: one trips and a probe of the same epoch number closes. -/
def lastEpoch (k : Nat) : List Action :=
  [.acquire 0, .acquire 0, .failure (k + 1) .server 0, .acquire 0, .success (k + 2) 0]

theorem stale_report_counts {w : World} {n k : Nat} (hn : n = u64Max) (h : Idle n k w) :
    let v := after (step hasty) w (lastEpoch k)
    Along (step hasty) Timely w (lastEpoch k) ∧
    ∃ p, v.permits.lookup k = some p ∧ p.period ≠ v.period ∧
      (v.step hasty (.failure k .server 0)).2.breaker ≠ v.breaker := by
  have hu32 : min 1 u32Max = 1 := by decide
  obtain ⟨b, permits, next, period, reports, left, clock⟩ := w
  obtain ⟨rfl, rfl, rfl⟩ := h
  subst hn
  have hfirst : ∀ x y z : Permit, AList.lookup next (AList.insert (next + 1 + 1) x
      (AList.erase (next + 1) (AList.insert (next + 1) y (AList.insert next z permits)))) = some z := by
    intro x y z
    rw [AList.lookup_insert_ne (by omega), AList.lookup_erase_ne (by omega),
      AList.lookup_insert_ne (by omega), AList.lookup_insert]
  refine ⟨?_, ⟨⟨false, u64Max⟩, period⟩, ?_⟩
  all_goals simp [lastEpoch, after, Along, Timely, step, acquire, admitRequest, refresh,
    become, report, permitFailure, permitSuccess,
    ErrorKind.tripsCircuit, hasty_window, hu32, hfirst]
  omega

/-- A fraction of a millisecond is not waited for, and when the epochs are used up a report of an
earlier period counts. -/
theorem breaker_bounds :
    (let config : CircuitBreakerConfig := ⟨1, 1500000, 1, 1⟩
     let w := after (World.step config) .start [.acquire 0, .failure 0 .server 0]
     w.leftClosed = some 0 ∧ 1 * 10 ^ 6 < config.openDurationNanos ∧
     (w.step config (.acquire 1)).1 = .admitted 1) ∧
    ∃ acts, Along (World.step hasty) Timely .start acts ∧
      ∃ id p, (after (World.step hasty) .start acts).permits.lookup id = some p ∧
        p.period ≠ (after (World.step hasty) .start acts).period ∧
        ((after (World.step hasty) .start acts).step hasty (.failure id .server 0)).2.breaker
          ≠ (after (World.step hasty) .start acts).breaker := by
  -- the number stays a variable: nobody should unfold that many cycles
  obtain ⟨n, hn⟩ : ∃ n, n = u64Max := ⟨_, rfl⟩
  obtain ⟨htimely, hidle⟩ := after_cycles n (by omega)
  obtain ⟨htimely', hstale⟩ := stale_report_counts hn hidle
  refine ⟨by decide +kernel, cycles n ++ lastEpoch (2 * n), htimely.append htimely', ?_⟩
  rw [after_append]
  exact ⟨2 * n, hstale⟩

end GtaClaw.Provider
