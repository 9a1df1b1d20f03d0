import GtaClaw.Runtime.Suspend

/-!
# What the suspension controller guarantees

The invariant `Quiet` ties the phase, the lease, the permit count and the tasks
together. Its core is that `draining` belongs to one task: while a call of
`prepare` is between arming its guard and its last locked section, the phase is
`draining` under the lease of that very call, so that nothing is admitted and
nobody else moves the phase.

What every single section does is said once (`expireLocked_cases`,
`pollStage_cases`); the invariant and the law of leases are read off from that.
-/

namespace GtaClaw.Runtime

open Lib ControllerState Suspension List

/-- The lease of a task between arming its guard and its last section. -/
def Stage.armed : Stage → Option SuspendLease
  | .register lease _ => some lease
  | .check lease _ _ => some lease
  | .waiting lease _ _ => some lease
  | .decided lease _ => some lease
  | _ => none

/-- The task found that the work had drained. -/
def Stage.hasDrained : Stage → Bool
  | .decided _ drained => drained
  | _ => false

theorem Stage.armed_of_hasDrained {stage : Stage} (h : stage.hasDrained = true) :
    ∃ lease, stage.armed = some lease := by
  cases stage with
  | decided lease drained => exact ⟨lease, rfl⟩
  | _ => cases h

/-- What each phase says about lease and work. -/
def ControllerState.Coherent (s : ControllerState) : Prop :=
  match s.phase with
  | .active => s.lease = none
  | .draining => s.lease.isSome = true
  | .suspended => s.lease.isSome = true ∧ s.inFlight = 0

variable {s : ControllerState} {lease : SuspendLease}

namespace ControllerState

/-! ## What a section does -/

variable (now : Timestamp)

theorem expireLocked_cases (s : ControllerState) :
    s.expireLocked now = s
      ∨ (s.phase = .suspended ∧ (∃ lease, s.lease = some lease ∧ lease.expiresAt ≤ now)
        ∧ s.expireLocked now = { s with phase := .active, lease := none }) := by
  fun_cases expireLocked now s with
  | case3 hphase lease hl hexp => exact .inr ⟨not_not.mp hphase, ⟨lease, hl, hexp⟩, rfl⟩
  | _ => exact .inl rfl

theorem expireLocked_of_lt {now : Timestamp}
    (hl : s.lease = some lease) (h : ¬ lease.expiresAt ≤ now) : s.expireLocked now = s := by
  rcases s.expireLocked_cases now with hs | ⟨-, ⟨lease', hl', hexp⟩, -⟩
  · exact hs
  rw [hl, Option.some.injEq] at hl'
  rw [hl'] at h
  exact absurd hexp h

theorem expireLocked_draining (h : s.phase = .draining) : s.expireLocked now = s := by
  rcases s.expireLocked_cases now with hs | ⟨hp, -⟩
  · exact hs
  · rw [h] at hp
    cases hp

theorem Coherent.expireLocked (h : s.Coherent) (now : Timestamp) :
    (s.expireLocked now).Coherent ∧ (s.expireLocked now).inFlight = s.inFlight := by
  rcases s.expireLocked_cases now with hs | ⟨-, -, hs⟩
  · rw [hs]
    exact ⟨h, rfl⟩
  · rw [hs]
    exact ⟨rfl, rfl⟩

theorem admitWork_cases (s : ControllerState) :
    ((s.expireLocked now).phase = .active ∧ s.admitWork now
        = (.ok (), { s.expireLocked now with
          inFlight := saturatingAdd (s.expireLocked now).inFlight 1 }))
      ∨ ((s.expireLocked now).phase ≠ .active
        ∧ s.admitWork now = (.error ⟨(s.expireLocked now).phase⟩, s.expireLocked now)) := by
  fun_cases admitWork now s with
  | case1 expired hp => exact .inr ⟨by simpa [SuspensionPhase.admitsWork] using hp, rfl⟩
  | case2 expired hp => exact .inl ⟨by simpa [SuspensionPhase.admitsWork] using hp, rfl⟩

theorem resume_cases (leaseId : LeaseId) (s : ControllerState) :
    (∃ e, s.resume now leaseId = (.error e, s.expireLocked now))
      ∨ ((s.expireLocked now).phase = .suspended
        ∧ (∃ lease, (s.expireLocked now).lease = some lease ∧ lease.leaseId = leaseId)
        ∧ (s.resume now leaseId).2 = { s.expireLocked now with phase := .active, lease := none }) := by
  fun_cases resume now leaseId s with
  | case4 expired held hl hp hid => exact .inr ⟨not_not.mp hp, ⟨held, hl, not_not.mp hid⟩, rfl⟩
  | _ => exact .inl ⟨_, rfl⟩

theorem beginDrain_cases (lease : SuspendLease) (s : ControllerState) :
    (∃ e, s.beginDrain now lease = (.error e, s.expireLocked now))
      ∨ ((s.expireLocked now).phase = .active ∧ s.beginDrain now lease
        = (.ok (), { s.expireLocked now with phase := .draining, lease := some lease })) := by
  fun_cases beginDrain now lease s with
  | case3 expired hp => exact .inr ⟨hp, rfl⟩
  | _ => exact .inl ⟨_, rfl⟩

end ControllerState

variable {state state' : ControllerState} {request : PrepareRequest}

theorem pollStage_cases {now : Timestamp} {stage stage' : Stage} {answer : SuspendAnswer}
    (h : pollStage now state request stage = (answer, stage', state')) :
    -- the controller is only read
    (state' = state ∧ stage'.armed = stage.armed ∧ (stage'.hasDrained = true → state.inFlight = 0)
        ∧ ∀ o, answer ≠ .prepared (.ok o))
      -- the call is refused
      ∨ (state' = state.expireLocked now ∧ stage.armed = none ∧ stage'.armed = none
        ∧ stage'.hasDrained = false ∧ ∀ o, answer ≠ .prepared (.ok o))
      -- the guard is armed
      ∨ (∃ lease, (state.expireLocked now).phase = .active
        ∧ state' = { state.expireLocked now with phase := .draining, lease := some lease }
        ∧ stage.armed = none ∧ stage'.armed = some lease ∧ stage'.hasDrained = false
        ∧ ∀ o, answer ≠ .prepared (.ok o))
      -- the last section
      ∨ (∃ lease drained, stage = .decided lease drained
        ∧ state' = (state.endDrain drained lease).2
        ∧ stage' = .returned (.ok (state.endDrain drained lease).1)
        ∧ answer = .prepared (.ok (state.endDrain drained lease).1)) := by
  revert h
  fun_cases pollStage now state request stage with intro h
  | case3 lease deadline e expired hbegin =>
    rcases state.beginDrain_cases now lease with ⟨e, hb⟩ | ⟨hp, hb⟩
    · cases h
      cases hb.symm.trans hbegin
      exact .inr (.inl ⟨rfl, rfl, rfl, rfl, by simp⟩)
    · cases hb.symm.trans hbegin
  | case4 lease deadline armed hbegin =>
    rcases state.beginDrain_cases now lease with ⟨e, hb⟩ | ⟨hp, hb⟩
    · cases hb.symm.trans hbegin
    · cases h
      cases hb.symm.trans hbegin
      exact .inr (.inr (.inl ⟨lease, hp, rfl, rfl, rfl, rfl, by simp⟩))
  | case6 _ _ _ hzero | case8 _ _ hzero =>
    cases h
    exact .inl ⟨rfl, rfl, fun _ => hzero, by simp⟩
  | case10 =>
    cases h
    exact .inl ⟨rfl, rfl, fun hd => of_decide_eq_true hd, by simp⟩
  | case12 lease drained _ _ hend =>
    cases h
    exact .inr (.inr (.inr ⟨lease, drained, rfl, by rw [hend], by rw [hend], by rw [hend]⟩))
  | _ =>
    cases h
    exact .inl ⟨rfl, rfl, fun hd => Bool.noConfusion hd, by simp⟩

/-! ## The invariant -/

/-- Task `i` is between arming its guard and its last section, under `lease`. -/
def Suspension.Armed (w : Suspension) (i : Nat) (lease : SuspendLease) : Prop :=
  ∃ task, w.tasks[i]? = some task ∧ task.stage.armed = some lease

structure Quiet (w : Suspension) : Prop where
  counts : w.state.inFlight = w.permits
  bound : w.permits < isizeMax
  coherent : w.state.Coherent
  /-- Draining under its lease belongs to the task that armed the guard. -/
  owner : ∀ i lease, w.Armed i lease → w.state.phase = .draining ∧ w.state.lease = some lease
  single : ∀ i j lease lease', w.Armed i lease → w.Armed j lease' → i = j
  drained : ∀ task ∈ w.tasks, task.stage.hasDrained = true → w.state.inFlight = 0

theorem quiet_new (now : Timestamp) : Quiet (.new now) := by
  have hnone : ∀ i lease, ¬ (new now).Armed i lease := by
    intro i lease harmed
    obtain ⟨task, ht, -⟩ := harmed
    cases ht
  refine ⟨rfl, Nat.succ_pos _, rfl, ?_, ?_, ?_⟩
  · intro i lease harmed
    exact absurd harmed (hnone i lease)
  · intro i j lease lease' harmed
    exact absurd harmed (hnone i lease)
  · intro task ht
    cases ht

section Steps

variable {w : Suspension}

/-- **The rule for sections of other calls**: they leave a controller that drains alone. -/
theorem Quiet.set_state (h : Quiet w) {permits : Nat}
    (hcount : state.inFlight = permits) (hbound : permits < isizeMax) (hco : state.Coherent)
    (hdraining : w.state.phase = .draining → state = w.state) :
    Quiet { w with state, permits } := by
  have hsame : ∀ i lease, w.Armed i lease → state = w.state :=
    fun i lease harmed => hdraining (h.owner i lease harmed).1
  refine ⟨hcount, hbound, hco, ?_, h.single, ?_⟩
  · intro i lease harmed
    rw [hsame i lease harmed]
    exact h.owner i lease harmed
  · intro task ht hd
    obtain ⟨i, hi⟩ := mem_iff_getElem?.mp ht
    obtain ⟨lease, harmed⟩ := Stage.armed_of_hasDrained hd
    rw [hsame i lease ⟨task, hi, harmed⟩]
    exact h.drained task ht hd

theorem Quiet.expire (h : Quiet w) : Quiet { w with state := w.state.expireLocked w.now } := by
  obtain ⟨hco, hcount⟩ := h.coherent.expireLocked w.now
  exact h.set_state (hcount.trans h.counts) h.bound hco (expireLocked_draining w.now)

theorem Quiet.admitWork (h : Quiet w) : Quiet w.admitWork.2 := by
  rcases w.state.admitWork_cases w.now with ⟨hp, ha⟩ | ⟨-, ha⟩
  · fun_cases Suspension.admitWork w with
    | case1 refused state hrefused => cases ha.symm.trans hrefused
    | case2 => exact { h with }
    | case3 state hok hroom =>
      cases ha.symm.trans hok
      obtain ⟨hco, hcount⟩ := h.coherent.expireLocked w.now
      have hsum : saturatingAdd (w.state.expireLocked w.now).inFlight 1 = w.permits + 1 := by
        rw [hcount, h.counts]
        refine saturatingAdd_of_le ?_
        unfold isizeMax at hroom
        unfold u64Max
        omega
      refine h.set_state hsum (by omega) ?_ fun hd => ?_
      · unfold ControllerState.Coherent at hco ⊢
        rw [hp] at hco ⊢
        exact hco
      · rw [ControllerState.expireLocked_draining w.now hd, hd] at hp
        cases hp
  · unfold Suspension.admitWork
    rw [ha]
    exact h.expire

theorem Quiet.resume (h : Quiet w) (leaseId : LeaseId) :
    Quiet { w with state := (w.state.resume w.now leaseId).2 } := by
  rcases w.state.resume_cases w.now leaseId with ⟨e, hr⟩ | ⟨hp, -, hr⟩
  · rw [hr]
    exact h.expire
  rw [hr]
  obtain ⟨-, hcount⟩ := h.coherent.expireLocked w.now
  refine h.set_state (hcount.trans h.counts) h.bound rfl ?_
  intro hd
  rw [expireLocked_draining w.now hd, hd] at hp
  cases hp

theorem Suspension.Armed.of_set {i j : Nat} {task : Prepare}
    (h : Suspension.Armed { w with state, tasks := w.tasks.set i task } j lease) :
    (j = i ∧ task.stage.armed = some lease) ∨ (j ≠ i ∧ w.Armed j lease) := by
  obtain ⟨task', ht, harmed⟩ := h
  rcases getElem?_set_some ht with ⟨hj, rfl⟩ | ⟨hj, ht⟩
  · exact .inl ⟨hj, harmed⟩
  · exact .inr ⟨hj, task', ht, harmed⟩

/-- **The rule for tasks that leave the controller alone**: none of them becomes armed. -/
theorem Quiet.set_tasks (h : Quiet w) {tasks : List Prepare}
    (hback : ∀ j lease, Suspension.Armed { w with tasks } j lease → w.Armed j lease)
    (hdrained : ∀ task ∈ tasks, task.stage.hasDrained = true → w.state.inFlight = 0) :
    Quiet { w with tasks } := by
  refine ⟨h.counts, h.bound, h.coherent, ?_, ?_, hdrained⟩
  · intro j lease hj
    exact h.owner j lease (hback j lease hj)
  · intro j k lease lease' hj hk
    exact h.single j k lease lease' (hback j lease hj) (hback k lease' hk)

/-- One task, which stays armed, or not, as it was. -/
theorem Quiet.set_task (h : Quiet w) {i : Nat} {task task' : Prepare} (ht : w.tasks[i]? = some task)
    (harmed : task'.stage.armed = task.stage.armed)
    (hdrained : task'.stage.hasDrained = true → w.state.inFlight = 0) :
    Quiet { w with tasks := w.tasks.set i task' } := by
  refine h.set_tasks ?_ ?_
  · intro j lease hj
    rcases hj.of_set with ⟨rfl, hl⟩ | ⟨-, hj⟩
    · exact ⟨task, ht, harmed ▸ hl⟩
    · exact hj
  · intro other hmem hd
    rcases mem_or_eq_of_mem_set hmem with hold | rfl
    · exact h.drained other hold hd
    · exact hdrained hd

/-- **The rule for the task that owns the phase**: when it lets go, any state will do. -/
theorem Quiet.release (h : Quiet w) {i : Nat} {task task' : Prepare}
    (ht : w.tasks[i]? = some task) (harmed : task.stage.armed = some lease)
    (hfree : task'.stage.armed = none) (hco : state.Coherent)
    (hcount : state.inFlight = w.state.inFlight) :
    Quiet { w with state, tasks := w.tasks.set i task' } := by
  have hnone : ∀ j lease', ¬ Suspension.Armed
      { w with state, tasks := w.tasks.set i task' } j lease' := by
    intro j lease' hj
    rcases hj.of_set with ⟨-, hl⟩ | ⟨hne, hj⟩
    · rw [hfree] at hl
      cases hl
    · exact hne (h.single j i lease' lease hj ⟨task, ht, harmed⟩)
  refine ⟨hcount.trans h.counts, h.bound, hco, ?_, ?_, ?_⟩
  · intro j lease' hj
    exact absurd hj (hnone j lease')
  · intro j k lease' _ hj
    exact absurd hj (hnone j lease')
  · intro other hmem hd
    rw [hcount]
    rcases mem_or_eq_of_mem_set hmem with hold | rfl
    · exact h.drained other hold hd
    · obtain ⟨lease', hl⟩ := Stage.armed_of_hasDrained hd
      cases hfree.symm.trans hl

theorem Quiet.poll (h : Quiet w) (i : Nat) : Quiet (w.poll i).2 := by
  fun_cases Suspension.poll w i with
  | case1 => exact h
  | case2 task ht answer stage' state' hp =>
    rcases pollStage_cases hp with ⟨rfl, harmed, hd, -⟩ | ⟨rfl, hfree, hfree', hd, -⟩
      | ⟨lease, hphase, rfl, hfree, harmed, hd, -⟩ | ⟨lease, drained, hs, rfl, rfl, -⟩
    · exact h.set_task ht harmed hd
    · refine h.expire.set_task ht (hfree'.trans hfree.symm) ?_
      intro hyes
      cases hd.symm.trans hyes
    · -- nobody was armed, since the phase was not draining
      have hnone : ∀ j lease', ¬ w.Armed j lease' := by
        intro j lease' hj
        rw [ControllerState.expireLocked_draining w.now (h.owner j lease' hj).1,
          (h.owner j lease' hj).1] at hphase
        cases hphase
      obtain ⟨-, hcount⟩ := h.coherent.expireLocked w.now
      have hown : ∀ j lease', Suspension.Armed { w with
          state := { w.state.expireLocked w.now with phase := .draining, lease := some lease }
          tasks := w.tasks.set i ⟨task.request, stage'⟩ } j lease' → j = i ∧ lease = lease' := by
        intro j lease' hj
        rcases hj.of_set with ⟨hji, hl⟩ | ⟨-, hj⟩
        · exact ⟨hji, Option.some.inj (harmed.symm.trans hl)⟩
        · exact absurd hj (hnone j lease')
      refine ⟨hcount.trans h.counts, h.bound, rfl, ?_, ?_, ?_⟩
      · intro j lease' hj
        exact ⟨rfl, congrArg some (hown j lease' hj).2⟩
      · intro j k lease' lease'' hj hk
        exact (hown j lease' hj).1.trans (hown k lease'' hk).1.symm
      · intro other hmem hyes
        rcases mem_or_eq_of_mem_set hmem with hold | rfl
        · exact hcount.trans (h.drained other hold hyes)
        · cases hd.symm.trans hyes
    · have harmed : task.stage.armed = some lease := by rw [hs]; rfl
      have hl := (h.owner i lease ⟨task, ht, harmed⟩).2
      refine h.release ht harmed rfl ?_ (by cases drained <;> rfl)
      unfold endDrain
      cases drained with
      | true =>
        rw [if_pos rfl]
        refine ⟨?_, h.drained task (mem_of_getElem? ht) ?_⟩
        · rw [hl]
          rfl
        · rw [hs]
          rfl
      | false => exact rfl

theorem dropGuard_owned (hp : s.phase = .draining) (hl : s.lease = some lease) :
    s.dropGuard lease.leaseId = { s with phase := .active, lease := none } := by
  unfold dropGuard
  rw [if_pos]
  rw [hp, hl]
  exact ⟨rfl, decide_eq_true rfl⟩

theorem Quiet.drop (h : Quiet w) (i : Nat) : Quiet (w.drop i) := by
  fun_cases Suspension.drop w i with
  | case1 | case4 => exact h
  | case2 task ht hs =>
    refine h.set_task ht ?_ fun hd => by cases hd
    rw [hs]
    rfl
  | case3 task ht lease _ _ hs =>
    have harmed : task.stage.armed = some lease := by rw [hs]; rfl
    obtain ⟨hp, hl⟩ := h.owner i lease ⟨task, ht, harmed⟩
    rw [dropGuard_owned hp hl]
    exact h.release ht harmed rfl rfl rfl

theorem notify_same (stage : Stage) :
    stage.notify.armed = stage.armed ∧ stage.notify.hasDrained = stage.hasDrained := by
  cases stage with
  | _ => exact ⟨rfl, rfl⟩

theorem Quiet.notifyWaiters (h : Quiet w) : Quiet w.notifyWaiters := by
  unfold Suspension.notifyWaiters
  split
  · exact h
  refine Quiet.set_tasks (w := { w with notifying := w.notifying - 1 }) { h with } ?_ ?_
  · intro j lease hj
    obtain ⟨task', ht', hl⟩ := hj
    rw [getElem?_map] at ht'
    obtain ⟨task, ht, rfl⟩ := Option.map_eq_some_iff.mp ht'
    rw [(notify_same task.stage).1] at hl
    exact ⟨task, ht, hl⟩
  · intro task' ht' hd
    obtain ⟨task, ht, rfl⟩ := mem_map.mp ht'
    rw [(notify_same task.stage).2] at hd
    exact h.drained task ht hd

theorem Quiet.dropPermit (h : Quiet w) : Quiet w.dropPermit := by
  unfold Suspension.dropPermit
  split
  · exact h
  refine ⟨?_, ?_, ?_, h.owner, h.single, ?_⟩
  · exact congrArg (· - 1) h.counts
  · have := h.bound
    dsimp only
    omega
  · have hco := h.coherent
    unfold ControllerState.Coherent at hco ⊢
    unfold ControllerState.dropPermit
    cases hp : w.state.phase with rw [hp] at hco
    | active | draining => exact hco
    | suspended => exact ⟨hco.1, by rw [hco.2]⟩
  · intro task ht hd
    have := h.drained task ht hd
    unfold ControllerState.dropPermit
    dsimp only
    omega

end Steps

/-- **Every step keeps the invariant.** -/
theorem quiet_step (w : Suspension) (a : SuspendAct) (h : Quiet w) : Quiet (w.step a).2 := by
  fun_cases step w a with
  | case1 => exact h
  | case2 => exact h.admitWork
  | case3 => exact h.dropPermit
  | case4 => exact h.notifyWaiters
  | case5 _ status state hstatus =>
    cases hstatus
    exact h.expire
  | case6 _ leaseId result state hresume =>
    have hquiet := h.resume leaseId
    rw [hresume] at hquiet
    exact hquiet
  | case7 _ request =>
    refine h.set_tasks ?_ ?_
    · intro j lease hj
      obtain ⟨task, ht, hl⟩ := hj
      rcases getElem?_concat_some ht with ht | ⟨-, rfl⟩
      · exact ⟨task, ht, hl⟩
      · cases hl
    · refine forall_mem_append.mpr ⟨h.drained, forall_mem_singleton.mpr fun hd => ?_⟩
      cases hd
  | case8 _ i => exact h.poll i
  | case9 _ i => exact h.drop i
  | case10 => exact { h with }

/-! ## Leases -/

/-- The controller is suspended under the lease. -/
def Suspension.Holds (w : Suspension) (lease : SuspendLease) : Prop :=
  w.state.phase = .suspended ∧ w.state.lease = some lease

/-- The step neither resumes the lease nor finds it expired. -/
def Keeps (lease : SuspendLease) (w : Suspension) (a : SuspendAct) : Prop :=
  a ≠ .resume lease.leaseId ∧ ¬ lease.expiresAt ≤ w.now

/-- What `prepare` returns is what the controller is then suspended under. -/
theorem prepared_holds {w : Suspension} (h : Quiet w) {a : SuspendAct}
    (ha : (w.step a).1 = .prepared (.ok (.suspended lease))) : (w.step a).2.Holds lease
      ∧ ∃ i task, a = .poll i ∧ w.tasks[i]? = some task ∧ task.stage.armed = some lease := by
  revert ha
  fun_cases Suspension.step w a with intro ha
  | case2 =>
    revert ha
    fun_cases Suspension.admitWork w with intro ha
    | _ => cases ha
  | case8 _ i =>
    revert ha
    fun_cases Suspension.poll w i with intro ha
    | case1 => cases ha
    | case2 task ht answer stage' state' hp =>
      cases ha
      rcases pollStage_cases hp with ⟨-, -, -, hno⟩ | ⟨-, -, -, -, hno⟩
        | ⟨_, -, -, -, -, -, hno⟩ | ⟨own, drained, hs, rfl, -, hanswer⟩
      · exact absurd rfl (hno _)
      · exact absurd rfl (hno _)
      · exact absurd rfl (hno _)
      · have harmed : task.stage.armed = some own := by rw [hs]; rfl
        have hl := (h.owner i own ⟨task, ht, harmed⟩).2
        unfold ControllerState.endDrain at hanswer ⊢
        cases drained with
        | true =>
          rw [hl] at hanswer
          cases hanswer
          exact ⟨⟨rfl, hl⟩, i, task, rfl, ht, harmed⟩
        | false => cases hanswer
  | _ => cases ha

/-- **While a lease is held nothing is admitted**, and it stays held. -/
theorem holds_step {w : Suspension} (h : Quiet w) (hl : w.Holds lease)
    {a : SuspendAct} (hk : Keeps lease w a) :
    (w.step a).2.Holds lease ∧ (w.step a).1 ≠ .admitted (.ok ()) := by
  have hexp : w.state.expireLocked w.now = w.state := ControllerState.expireLocked_of_lt hl.2 hk.2
  have hidle : ∀ i own, ¬ w.Armed i own := by
    intro i own harmed
    cases hl.1.symm.trans (h.owner i own harmed).1
  fun_cases Suspension.step w a with
  | case1 | case7 | case10 => exact ⟨hl, by simp⟩
  | case2 =>
    unfold Suspension.admitWork
    rcases w.state.admitWork_cases w.now with ⟨hp, -⟩ | ⟨-, hc⟩
    · rw [hexp, hl.1] at hp
      cases hp
    · rw [hc, hexp]
      exact ⟨hl, by simp⟩
  | case3 =>
    fun_cases Suspension.dropPermit w with
    | _ => exact ⟨hl, by simp⟩
  | case4 =>
    fun_cases Suspension.notifyWaiters w with
    | _ => exact ⟨hl, by simp⟩
  | case5 _ status state hstatus =>
    rw [ControllerState.status, hexp] at hstatus
    cases hstatus
    exact ⟨hl, by simp⟩
  | case6 _ leaseId result state hresume =>
    refine ⟨?_, by simp⟩
    rcases w.state.resume_cases w.now leaseId with ⟨e, hr⟩ | ⟨-, ⟨held, hheld, hid⟩, -⟩
    · rw [hr, hexp] at hresume
      cases hresume
      exact hl
    · rw [hexp, hl.2, Option.some.injEq] at hheld
      rw [← hheld] at hid
      exact absurd (congrArg SuspendAct.resume hid.symm) hk.1
  | case8 _ i =>
    fun_cases Suspension.poll w i with
    | case1 => exact ⟨hl, by simp⟩
    | case2 task ht answer stage' state' hp =>
      have hno : (pollStage w.now w.state task.request task.stage).1 ≠ .admitted (.ok ()) := by
        fun_cases pollStage w.now w.state task.request task.stage <;> nofun
      rw [hp] at hno
      refine ⟨?_, hno⟩
      rcases pollStage_cases hp with ⟨rfl, -⟩ | ⟨rfl, -⟩ | ⟨_, hphase, -⟩
        | ⟨own, drained, hs, -⟩
      · exact hl
      · rw [hexp]
        exact hl
      · rw [hexp, hl.1] at hphase
        cases hphase
      · exact absurd ⟨task, ht, by rw [hs]; rfl⟩ (hidle i own)
  | case9 _ i =>
    refine ⟨?_, by simp⟩
    fun_cases Suspension.drop w i with
    | case3 task ht own _ _ hs => exact absurd ⟨task, ht, by rw [hs]; rfl⟩ (hidle i own)
    | _ => exact hl

/-- **The suspension controller**, in every state that any interleaving of its calls reaches: the
count is the number of live permits; each phase goes with its lease, and suspension with no work;
from the moment `prepare` returns a lease nothing is admitted until the lease is resumed or
expires; and a `prepare` that is dropped while it drains leaves the controller active. -/
theorem suspension_sound (now : Timestamp) (acts : List SuspendAct) (w : Suspension)
    (hw : w = after Suspension.step (.new now) acts) :
    w.state.inFlight = w.permits
      ∧ (w.state.phase = .suspended → w.state.inFlight = 0 ∧ w.state.lease.isSome = true)
      ∧ (w.state.phase = .active → w.state.lease = none)
      ∧ (w.state.phase = .draining → w.state.lease.isSome = true)
      ∧ (∀ a lease, (w.step a).1 = .prepared (.ok (.suspended lease)) →
        ∀ later, Along Suspension.step (Keeps lease) (w.step a).2 later →
          ∀ e ∈ history Suspension.step (w.step a).2 later, e.2 ≠ .admitted (.ok ()))
      ∧ ∀ i task lease deadline notified, w.halted = false → w.tasks[i]? = some task →
        task.stage = .waiting lease deadline notified →
          (w.step (.drop i)).2.state.phase = .active
            ∧ (w.step (.drop i)).2.state.lease = none := by
  have h : Quiet w := by
    rw [hw]
    exact after_inv (fun w a hq _ => quiet_step w a hq) acts _ (quiet_new now) (along_true acts _)
  have hco := h.coherent
  unfold ControllerState.Coherent at hco
  refine ⟨h.counts, ?_, ?_, ?_, ?_, ?_⟩
  · intro hp
    rw [hp] at hco
    exact ⟨hco.2, hco.1⟩
  · intro hp
    rw [hp] at hco
    exact hco
  · intro hp
    rw [hp] at hco
    exact hco
  · intro a lease ha later hk
    have hrun := history_inv (I := fun past s => Quiet s ∧ s.Holds lease
        ∧ ∀ e ∈ past, e.2 ≠ SuspendAnswer.admitted (.ok ())) ?_ later [] _
      ⟨quiet_step w a h, (prepared_holds h ha).1, fun e he => absurd he not_mem_nil⟩ hk
    · exact hrun.2.2
    · intro past s b hinv hkeep
      obtain ⟨hq, hl, hpast⟩ := hinv
      obtain ⟨hl', hno⟩ := holds_step hq hl hkeep
      exact ⟨quiet_step s b hq, hl', forall_mem_append.mpr ⟨hpast, forall_mem_singleton.mpr hno⟩⟩
  · intro i task lease deadline notified hrun ht hs
    obtain ⟨hp, hl⟩ := h.owner i lease ⟨task, ht, by rw [hs]; rfl⟩
    unfold Suspension.step Suspension.drop
    rw [hrun, if_neg Bool.false_ne_true]
    dsimp only
    rw [ht]
    dsimp only
    rw [hs]
    dsimp only
    rw [dropGuard_owned hp hl]
    exact ⟨rfl, rfl⟩

/-- **Only one call of `prepare` drains at a time**, over every interleaving; while it does, the
phase and the lease are its own and no work is admitted. -/
theorem drain_exclusive (now : Timestamp) (acts : List SuspendAct) :
    let w := after Suspension.step (.new now) acts
    (∀ i j lease lease', w.Armed i lease → w.Armed j lease' → i = j) ∧
    ∀ i lease, w.Armed i lease → w.state.phase = .draining ∧ w.state.lease = some lease ∧
      (w.step .admitWork).1 ≠ .admitted (.ok ()) := by
  intro w
  have h : Quiet w :=
    after_inv (fun w a h _ => quiet_step w a h) acts _ (quiet_new now) (along_true acts _)
  refine ⟨h.single, fun i lease harmed => ?_⟩
  obtain ⟨hp, hl⟩ := h.owner i lease harmed
  refine ⟨hp, hl, ?_⟩
  unfold Suspension.step
  split_ifs
  · simp
  rcases w.state.admitWork_cases w.now with ⟨hactive, -⟩ | ⟨-, hrefused⟩
  · rw [expireLocked_draining w.now hp, hp] at hactive
    cases hactive
  · simp [Suspension.admitWork, hrefused]

/-! ## Does a lease outlive the drain? -/

/-- The lease that a call of `prepare` has made out. -/
def Stage.made : Stage → Option SuspendLease
  | .checkPhase lease _ => some lease
  | stage => stage.armed

/-- Every lease runs from the moment its call first read the clock. -/
def Dated (w : Suspension) : Prop :=
  ∀ task ∈ w.tasks, ∀ lease, task.stage.made = some lease →
    lease.grantedAt.checkedAdd task.request.leaseTtl = some lease.expiresAt

theorem dated_step (w : Suspension) (a : SuspendAct) (h : Dated w) : Dated (w.step a).2 := by
  have hset : ∀ {i task stage'} {state' : ControllerState}, w.tasks[i]? = some task →
      (∀ lease, Stage.made stage' = some lease → task.stage.made = some lease
        ∨ lease.grantedAt.checkedAdd task.request.leaseTtl = some lease.expiresAt) →
      Dated { w with state := state', tasks := w.tasks.set i ⟨task.request, stage'⟩ } := by
    intro i task stage' state' ht hstage other hmem lease hl
    rcases mem_or_eq_of_mem_set hmem with hold | rfl
    · exact h other hold lease hl
    · exact (hstage lease hl).elim (h task (mem_of_getElem? ht) lease) id
  fun_cases step w a with
  | case2 =>
    fun_cases Suspension.admitWork w with
    | _ => exact h
  | case3 =>
    fun_cases Suspension.dropPermit w with
    | _ => exact h
  | case4 =>
    fun_cases Suspension.notifyWaiters w with
    | case1 => exact h
    | case2 =>
      intro task ht lease hl
      obtain ⟨old, hold, rfl⟩ := mem_map.mp ht
      refine h old hold lease ?_
      cases hs : old.stage <;> rw [hs] at hl <;> exact hl
  | case7 _ request =>
    refine forall_mem_append.mpr ⟨h, forall_mem_singleton.mpr fun lease hl => ?_⟩
    cases hl
  | case8 _ i =>
    fun_cases Suspension.poll w i with
    | case1 => exact h
    | case2 task ht _ _ _ hp =>
      refine hset ht fun lease hlease => ?_
      revert hp
      fun_cases pollStage w.now w.state task.request task.stage with (intro hp; cases hp)
      | case1 deadline expiresAt hexpires =>
        cases hlease
        exact .inr hexpires
      | case2 | case3 | case12 | case13 | case14 => cases hlease
      | _ => exact .inl hlease
  | case9 _ i =>
    fun_cases Suspension.drop w i with
    | case1 | case4 => exact h
    | case2 task ht | case3 task ht => exact hset ht fun _ hl => by cases hl
  | _ => exact h

theorem Timestamp.le_of_checkedAdd {t t' now : Timestamp} {duration : Duration}
    (h : t.checkedAdd duration = some t') :
    t' ≤ now ↔ t.asMillis.toInt + duration.asMillis ≤ now.asMillis.toInt := by
  unfold checkedAdd at h
  dsimp only at h
  split at h
  · rename_i hfits
    cases h
    have hmin := t.asMillis.le_toInt
    change Int64.ofInt _ ≤ _ ↔ _
    rw [Int64.le_iff_toInt_le, Int64.toInt_ofInt_of_le (by omega) hfits.2]
  · cases h

/-- **A lease is usable when `prepare` returns it exactly if less time has passed since the call
began than the lease lasts**; otherwise the next call finds it expired. -/
theorem lease_usable_iff (start : Timestamp) (acts : List SuspendAct) (i : Nat) (task : Prepare)
    (lease : SuspendLease) (w : Suspension) (hw : w = after Suspension.step (.new start) acts)
    (ht : w.tasks[i]? = some task)
    (hp : (w.step (.poll i)).1 = .prepared (.ok (.suspended lease))) :
    (¬ lease.expiresAt ≤ w.now ∧ ((w.step (.poll i)).2.step .admitWork).1
        = .admitted (.error ⟨.suspended⟩))
      ↔ w.now.asMillis.toInt < lease.grantedAt.asMillis.toInt + task.request.leaseTtl.asMillis := by
  obtain ⟨hquiet, hdated⟩ : Quiet w ∧ Dated w := by
    rw [hw]
    exact after_inv (I := fun w => Quiet w ∧ Dated w)
      (fun w a h _ => ⟨quiet_step w a h.1, dated_step w a h.2⟩) acts _
      ⟨quiet_new start, fun _ h => by cases h⟩ (along_true acts _)
  obtain ⟨hholds, j, own, hj, hown, harmed⟩ := prepared_holds hquiet hp
  cases hj
  cases ht.symm.trans hown
  have hmade : task.stage.made = some lease := by
    cases hs : task.stage with rw [hs] at harmed
    | checkPhase => cases harmed
    | _ => exact harmed
  have hdate := hdated task (mem_of_getElem? ht) lease hmade
  rw [← Int.not_le, ← Timestamp.le_of_checkedAdd hdate, and_iff_left_iff_imp]
  intro hfresh
  have hrun : w.halted = false := by
    by_contra hhalted
    rw [Suspension.step, if_pos (Bool.eq_true_of_not_eq_false hhalted)] at hp
    cases hp
  have hkept : (w.step (.poll i)).2.now = w.now ∧ (w.step (.poll i)).2.halted = false := by
    rw [Suspension.step, hrun, if_neg Bool.false_ne_true]
    fun_cases Suspension.poll w i with
    | _ => exact ⟨rfl, hrun⟩
  have hexp := ControllerState.expireLocked_of_lt hholds.2 (hkept.1 ▸ hfresh)
  rw [Suspension.step, hkept.2, if_neg Bool.false_ne_true]
  dsimp only [Suspension.admitWork]
  rcases (w.step (.poll i)).2.state.admitWork_cases (w.step (.poll i)).2.now with ⟨hp, -⟩ | ⟨-, hc⟩
  · rw [hexp, hholds.1] at hp
    cases hp
  · rw [hc, hexp, hholds.1]

section Concrete

def hostLease : LeaseId := ⟨"host", by decide +kernel⟩

/-- One unit of work is in flight when the host asks; it ends while the drain waits. -/
def drainedRun : List SuspendAct :=
  [.admitWork, .prepare ⟨hostLease, "sleep", ⟨5⟩, ⟨10⟩⟩, .poll 0, .poll 0, .poll 0, .poll 0,
    .dropPermit, .notifyWaiters, .poll 0]

theorem suspension_sound_drained :
    ((after Suspension.step (.new ⟨0⟩) drainedRun).step (.poll 0)).1
        = .prepared (.ok (.suspended ⟨hostLease, "sleep", ⟨0⟩, ⟨10⟩⟩))
      ∧ ∀ e ∈ history Suspension.step ((after Suspension.step (.new ⟨0⟩) drainedRun).step (.poll 0)).2
          [.admitWork, .setClock ⟨9⟩, .admitWork], e.2 ≠ .admitted (.ok ()) := by
  have hp : ((after Suspension.step (.new ⟨0⟩) drainedRun).step (.poll 0)).1
      = .prepared (.ok (.suspended ⟨hostLease, "sleep", ⟨0⟩, ⟨10⟩⟩)) := by decide +kernel
  obtain ⟨-, -, -, -, hlease, -⟩ := suspension_sound ⟨0⟩ drainedRun _ rfl
  refine ⟨hp, hlease _ _ hp _ ?_⟩
  refine ⟨⟨by simp, by decide +kernel⟩, ⟨by simp, by decide +kernel⟩, ⟨by simp, by decide +kernel⟩,
    trivial⟩

/-- The work takes two of the five milliseconds it is given. -/
def slowRun (ttl : Nat) : List SuspendAct :=
  [.admitWork, .prepare ⟨hostLease, "sleep", ⟨5⟩, ⟨ttl⟩⟩, .poll 0, .poll 0, .poll 0, .poll 0,
    .setClock ⟨2⟩, .dropPermit, .notifyWaiters, .poll 0]

theorem lease_usable_slow :
    (((after Suspension.step (.new ⟨0⟩) (slowRun 3)).step (.poll 0)).2.step .admitWork).1
      = .admitted (.error ⟨.suspended⟩) :=
  ((lease_usable_iff ⟨0⟩ (slowRun 3) 0 ⟨⟨hostLease, "sleep", ⟨5⟩, ⟨3⟩⟩, .decided
      ⟨hostLease, "sleep", ⟨0⟩, ⟨3⟩⟩ true⟩ ⟨hostLease, "sleep", ⟨0⟩, ⟨3⟩⟩ _ rfl (by rfl)
    (by decide +kernel)).mpr (by decide +kernel)).2

/-- The lease that `prepare` returns has run out, and work is admitted at once. -/
theorem prepare_returns_expired_lease :
    let w := after Suspension.step (.new ⟨0⟩) (slowRun 1)
    (w.step (.poll 0)).1 = .prepared (.ok (.suspended ⟨hostLease, "sleep", ⟨0⟩, ⟨1⟩⟩))
      ∧ ((w.step (.poll 0)).2.step .admitWork).1 = .admitted (.ok ()) := by
  decide +kernel

end Concrete

end GtaClaw.Runtime
