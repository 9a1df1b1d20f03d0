import GtaClaw.Runtime.Calls

/-!
# What is left after shutdown

`shutdown` cancels its token, closes the trackers, waits for them to be empty and clears
the registry. A `submit_with` call looks at the token a last time, and then claims and
spawns in steps of their own: one that is in between when the tracker's `wait` returns is
missed.
-/

namespace GtaClaw.Runtime

open Lib World

/-- Past the last look at the token, and not out of the tracker. -/
def SubmitPhase.underway : SubmitPhase → Bool
  | .claiming .. | .spawning .. | .running .. | .retiring .. | .dropped _ => true
  | _ => false

/-- The tracker holds the task. -/
def SubmitPhase.tracked : SubmitPhase → Bool
  | .running .. | .retiring .. | .dropped _ => true
  | _ => false

/-- How many steps of `shutdown` are done. -/
def ShutdownPhase.done : ShutdownPhase → Nat
  | .cancelling => 0
  | .refusing => 1
  | .withdrawing => 2
  | .closing => 3
  | .waiting => 4
  | .waitingInternal => 5
  | .clearing => 6
  | .returned => 7

namespace World

/-- When the tracker's `wait` returns, no `submit_with` call is about to claim or spawn. -/
def settled (w : World) : Act → Bool
  | .start _ => true
  | .advance i _ =>
    match w.calls[i]? with
    | some (.shutdown .waiting) => !w.tracker.drained || w.calls.all fun
      | .submit _ phase => !phase.underway || phase.tracked
      | _ => true
    | _ => true

/-- Some call of `shutdown` has done so many of its steps. -/
def Reached (w : World) (n : Nat) : Prop :=
  ∃ (i : Nat) (phase : ShutdownPhase), w.calls[i]? = some (.shutdown phase) ∧ n ≤ phase.done

/-- Nothing runs, and nothing is held. -/
structure Quiet (w : World) : Prop where
  turns : ∀ (i : Nat) request phase, w.calls[i]? = some (.submit request phase) → phase.underway = false
  goals : ∀ (i : Nat), w.calls[i]? ≠ some (.goal .working)
  tasks : w.trackedTasks = 0
  sessions : w.sessions.entries = ∅

structure Stopping (w : World) : Prop where
  turns : ∀ (i : Nat) request phase, w.calls[i]? = some (.submit request phase) → phase.tracked = true →
    i ∈ w.tracker.tasks
  goals : ∀ (i : Nat), w.calls[i]? = some (.goal .working) → i ∈ w.internalTasks.tasks
  cancelled : w.Reached 1 → w.shutdown = true
  refusing : w.Reached 2 → w.accepting = false
  waited : w.Reached 5 → w.tracker.tasks = [] ∧
    ∀ (i : Nat) request phase, w.calls[i]? = some (.submit request phase) → phase.underway = false
  waitedInternal : w.Reached 6 → w.internalTasks.tasks = []
  cleared : w.Reached 7 → w.sessions.entries = ∅

variable {w w' : World} {i : Nat} {request : Submission} {phase : SubmitPhase} (env : Env)

/-! ## What a step of a submission does -/

theorem submitStep_tracked (request : Submission) (h : phase.tracked = true → i ∈ w.tracker.tasks) :
    ((w.submitStep i env request phase).1.tracked = true →
      i ∈ (w.submitStep i env request phase).2.tracker.tasks) ∧
    ∀ j ≠ i, j ∈ w.tracker.tasks → j ∈ (w.submitStep i env request phase).2.tracker.tasks := by
  fun_cases submitStep w i env request phase <;>
    simp_all [SubmitPhase.tracked, TaskTracker.spawn, TaskTracker.leave]

/-- Once the token is cancelled, a call that was not let through stays outside. -/
theorem submitStep_outside (i : Nat) (request : Submission) (h : phase.underway = false)
    (hshutdown : w.shutdown = true) :
    (w.submitStep i env request phase).1.underway = false ∧
    (w.submitStep i env request phase).2.tracker = w.tracker ∧
    (w.sessions.entries = ∅ → (w.submitStep i env request phase).2.sessions.entries = ∅) := by
  have hsweep : ∀ r : ConversationRegistry, r.entries = ∅ → (r.sweep env.now).entries = ∅ := by
    intro r hr
    rw [ConversationRegistry.sweep, hr]
    rfl
  fun_cases submitStep w i env request phase <;> simp_all [SubmitPhase.underway]

/-! ## Every step -/

theorem getElem?_set {call : Call} (h : w.calls[i]? = some call) (hcalls : w'.calls = w.calls)
    (call' : Call) (j : Nat) : (w'.set i call').calls[j]? = if j = i then some call' else w.calls[j]? := by
  unfold set
  grind

theorem Reached.mono {n m : Nat} (hle : m ≤ n) (h : w.Reached n) : w.Reached m := by
  obtain ⟨j, shut, hj, hn⟩ := h
  exact ⟨j, shut, hj, hle.trans hn⟩

theorem Reached.of_set {call call' : Call} {n : Nat} (h : w.calls[i]? = some call)
    (hcalls : w'.calls = w.calls) (hother : ∀ shut, call' ≠ .shutdown shut)
    (hn : (w'.set i call').Reached n) : w.Reached n := by
  obtain ⟨j, shut, hj, hn⟩ := hn
  rw [getElem?_set h hcalls] at hj
  exact ⟨j, shut, by grind, hn⟩

theorem Stopping.submit (hw : Stopping w) (h : w.calls[i]? = some (.submit request phase)) :
    Stopping ((w.submitStep i env request phase).2.set i
      (.submit request (w.submitStep i env request phase).1)) := by
  obtain ⟨hcalls, hshutdown, haccepting, hinternal⟩ := submitStep_frame env w i request phase
  have htracked := submitStep_tracked env request (hw.turns i request phase h)
  have houtside := fun hphase => @submitStep_outside w phase env i request hphase
  generalize (w.submitStep i env request phase).1 = phase' at *
  generalize (w.submitStep i env request phase).2 = w' at *
  obtain ⟨turns, goals, cancelled, refusing, waited, waitedInternal, cleared⟩ := hw
  have hreached : ∀ n, (w'.set i (.submit request phase')).Reached n → w.Reached n :=
    fun n hn => hn.of_set h hcalls (by simp)
  have hmono : ∀ n m, m ≤ n → w.Reached n → w.Reached m := fun _ _ => .mono
  constructor <;> grind [set]

theorem Stopping.goal (hw : Stopping w) {phase : GoalPhase} (h : w.calls[i]? = some (.goal phase)) :
    Stopping ((w.goalStep i env phase).2.set i (.goal (w.goalStep i env phase).1)) := by
  have hcalls : (w.goalStep i env phase).2.calls = w.calls := by
    fun_cases goalStep w i env phase <;> rfl
  have hreached : ∀ n, ((w.goalStep i env phase).2.set i
      (.goal (w.goalStep i env phase).1)).Reached n → w.Reached n :=
    fun n hn => hn.of_set h hcalls (by simp)
  have hmono : ∀ n m, m ≤ n → w.Reached n → w.Reached m := fun _ _ => .mono
  obtain ⟨turns, goals, cancelled, refusing, waited, waitedInternal, cleared⟩ := hw
  fun_cases goalStep w i env phase <;> constructor <;>
    grind [set, goalStep, TaskTracker.spawn, TaskTracker.leave]

theorem Stopping.shut (hw : Stopping w) {phase : ShutdownPhase}
    (h : w.calls[i]? = some (.shutdown phase)) (hsettled : w.settled (.advance i env) = true) :
    Stopping ((w.shutdownStep phase).2.set i (.shutdown (w.shutdownStep phase).1)) := by
  have hcalls : (w.shutdownStep phase).2.calls = w.calls := by
    fun_cases shutdownStep w phase <;> rfl
  have hget := getElem?_set h hcalls (.shutdown (w.shutdownStep phase).1)
  have hreached : ∀ n, ((w.shutdownStep phase).2.set i
      (.shutdown (w.shutdownStep phase).1)).Reached n →
      w.Reached n ∨ n ≤ (w.shutdownStep phase).1.done := by
    rintro n ⟨j, shut, hj, hn⟩
    by_cases hji : j = i
    · exact .inr (by grind)
    · exact .inl ⟨j, shut, by grind, hn⟩
  have hself : ∀ n ≤ phase.done, w.Reached n := fun n hn => ⟨i, phase, h, hn⟩
  obtain ⟨turns, goals, cancelled, refusing, waited, waitedInternal, cleared⟩ := hw
  cases phase with
  | cancelling | refusing | withdrawing | closing | clearing | returned =>
    constructor <;> grind [set, shutdownStep, ShutdownPhase.done, ConversationRegistry.clear]
  | waiting =>
    -- the tracker is empty, and so nothing that is not about to be spawned is underway
    have hnone : w.tracker.drained = true → w.tracker.tasks = [] ∧
        ∀ (j : Nat) request phase, w.calls[j]? = some (.submit request phase) →
          phase.underway = false := by
      intro hdrained
      have htasks : w.tracker.tasks = [] := by simpa using (Bool.and_eq_true_iff.mp hdrained).2
      refine ⟨htasks, fun j request phase hj => ?_⟩
      have hpassed : phase.underway = false ∨ phase.tracked = true := by
        have hall := hsettled
        simp only [settled, h, hdrained, Bool.not_true, Bool.false_or, List.all_eq_true] at hall
        simpa using hall _ (List.mem_of_getElem? hj)
      grind
    constructor <;> grind [set, shutdownStep, ShutdownPhase.done]
  | waitingInternal =>
    have hnone : w.internalTasks.drained = true → w.internalTasks.tasks = [] :=
      fun hdrained => by simpa using (Bool.and_eq_true_iff.mp hdrained).2
    constructor <;> grind [set, shutdownStep, ShutdownPhase.done]

theorem Stopping.step (hw : Stopping w) {a : Act} (hsettled : w.settled a = true) :
    Stopping (w.step a).2 := by
  cases a with
  | start request =>
    obtain ⟨turns, goals, cancelled, refusing, waited, waitedInternal, cleared⟩ := hw
    -- a call that has just begun does nothing yet
    have hget : ∀ (j : Nat) call, (w.step (.start request)).2.calls[j]? = some call →
        w.calls[j]? = some call ∨ call = request.call := by
      intro j call hj
      exact (getElem?_concat_some hj).imp_right And.right
    have hreached : ∀ n, (w.step (.start request)).2.Reached (n + 1) → w.Reached (n + 1) := by
      rintro n ⟨j, shut, hj, hn⟩
      rcases hget j _ hj with hold | hnew
      · exact ⟨j, shut, hold, hn⟩
      · cases request <;> simp_all [Request.call, ShutdownPhase.done]
    cases request <;> constructor <;>
      grind [Request.call, step, SubmitPhase.tracked, SubmitPhase.underway]
  | advance i env =>
    change Stopping (w.advance i env)
    unfold advance
    split
    · rename_i h
      exact hw.submit env h
    · rename_i h
      exact hw.goal env h
    · rename_i h
      exact hw.shut env h hsettled
    · exact hw

theorem Fresh.stopping (h : w.Fresh) : Stopping w := by
  obtain ⟨_, _, _, _, rfl⟩ := h
  constructor <;> simp [new, Reached]

theorem returned_step {a : Act} (h : w.calls[i]? = some (.shutdown .returned)) :
    (w.step a).2.calls[i]? = some (.shutdown .returned) := by
  obtain ⟨hlt, -⟩ := getElem?_eq_some_iff.mp h
  cases a with
  | start request => exact (List.getElem?_append_left hlt).trans h
  | advance j env =>
    change (w.advance j env).calls[i]? = _
    unfold advance
    split
    · rename_i request phase hj
      rw [getElem?_set hj (submitStep_frame env w j request phase).1]
      grind
    · rename_i phase hj
      rw [getElem?_set hj (by fun_cases goalStep w j env phase <;> rfl)]
      grind
    · rename_i phase hj
      rw [getElem?_set hj (by fun_cases shutdownStep w phase <;> rfl)]
      grind [shutdownStep]
    · exact h

end World

/-- **Nothing runs after shutdown** if no `submit_with` call stands between its last look
at the token and its spawn when the tracker's `wait` returns: from the state in which a
call of `shutdown` has returned, nothing runs and no session is held, however the run
goes on. -/
theorem quiet_after_shutdown (start : World) (hfresh : start.Fresh) (acts more : List Act)
    (hacts : Along World.step (fun w a => w.settled a) start acts)
    (hmore : Along World.step (fun w a => w.settled a) (after World.step start acts) more)
    (call : Nat) (hreturned : (after World.step start acts).calls[call]? = some (.shutdown .returned)) :
    (after World.step (after World.step start acts) more).Quiet := by
  have hw : World.Stopping (after World.step (after World.step start acts) more) :=
    after_inv (fun _ _ h => h.step) more _
      (after_inv (fun _ _ h => h.step) acts _ hfresh.stopping hacts) hmore
  have hstill : (after World.step (after World.step start acts) more).calls[call]?
      = some (.shutdown .returned) :=
    after_inv (I := fun w => w.calls[call]? = some (.shutdown .returned))
      (fun _ _ h _ => World.returned_step h) more _ hreturned hmore
  generalize after World.step (after World.step start acts) more = w at hw hstill
  have hreached : ∀ n ≤ 7, w.Reached n := fun n hn => ⟨call, .returned, hstill, hn⟩
  obtain ⟨htasks, hturns⟩ := hw.waited (hreached 5 (by decide))
  have hinternal := hw.waitedInternal (hreached 6 (by decide))
  refine ⟨hturns, fun i hi => ?_, ?_, hw.cleared (hreached 7 (by decide))⟩
  · have hmem := hw.goals i hi
    rw [hinternal] at hmem
    cases hmem
  · rw [World.trackedTasks, htasks, hinternal]
    rfl

/-- A turn that is done before the tracker is closed. -/
def stoppedRun : List Act :=
  deskTurn :: List.replicate 10 (goOn 0) ++ [finish 0, goOn 0] ++
    .start .shutdown :: List.replicate 7 (goOn 1)

/-- `shutdown` runs from its start to its end between the last look at the token and the
claim of a call. -/
def missedRun : List Act :=
  deskTurn :: List.replicate 7 (goOn 0) ++ .start .shutdown :: List.replicate 7 (goOn 1)

theorem quiet_after_drained_shutdown :
    (after World.step deskRuntime stoppedRun).calls.length = 2 ∧
    (after World.step (after World.step deskRuntime stoppedRun) [deskTurn, goOn 2]).Quiet := by
  refine ⟨by decide +kernel, ?_⟩
  have hreturned : (after World.step deskRuntime stoppedRun).calls[1]?
      = some (.shutdown .returned) := by rfl
  exact quiet_after_shutdown deskRuntime deskRuntime_fresh stoppedRun [deskTurn, goOn 2]
    (by decide +kernel) (by decide +kernel) 1 hreturned

/-- `shutdown` has returned, and then a turn is claimed, spawned and run. -/
theorem turn_runs_after_shutdown :
    (after World.step deskRuntime missedRun).calls[1]? = some (.shutdown .returned) ∧
    (after World.step deskRuntime missedRun).trackedTasks = 0 ∧
    (after World.step deskRuntime (missedRun ++ [goOn 0, goOn 0])).trackedTasks = 1 ∧
    ((after World.step deskRuntime (missedRun ++ [goOn 0, goOn 0])).sessions.owner deskSession).isSome
      := by
  refine ⟨by rfl, by decide +kernel, by decide +kernel, by decide +kernel⟩

end GtaClaw.Runtime
