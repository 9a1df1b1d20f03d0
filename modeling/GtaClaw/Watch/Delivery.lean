import GtaClaw.Watch.Operations

/-!
# Delivery to watch nodes

An `enqueue` reads the closed flag of the session before it takes the lock of the queue,
and a poll only learns that it was superseded when it runs again. The two conditions on
runs say that nothing comes in between; without them an event can be queued on a closed
session, and a superseded poll can take the session of its successor down.
-/

namespace GtaClaw.Watch

open Lib List

variable (limits : HttpLimits) (serializedLen : Event → Option Nat)

/-- The call that an operation makes next. -/
def nextCall (w : World) (i : Nat) : Option (Op × Call) :=
  match w.tasks[i]? with
  | some (op, .call c _) => some (op, c)
  | _ => none

/-- No session is closed while an `enqueue` stands between its look at the closed flag and the
queue of the session. -/
def NoCloseMeanwhile (w : World) : PoolAct Op Env → Prop
  | .spawn _ => True
  | .run i env => ∀ next ∈ nextCall w i, ∀ s ∈ List.range w.shared.objects.length,
      w.shared.isOpen s = true → (exec limits i next.1 w.shared env next.2).2.isOpen s = false →
        ∀ j ∈ w.shared.sending.keys, j ≠ i → w.shared.sending.lookup j ≠ some s

/-- The request of a poll is dropped when a newer one has superseded it, before it has run again
and noticed. -/
def dropsLate (r : Runtime) (env : Env) : Call → Bool
  | .wait s generation => env.wake = .dropped && r.superseded s generation && r.isOpen s
  | _ => false

def NoLateDrop (w : World) : PoolAct Op Env → Prop
  | .spawn _ => True
  | .run i env => ∀ next ∈ nextCall w i, dropsLate w.shared env next.2 = false

/-- A poll that was dropped when it was superseded does not close the session. -/
def HarmlessDrop (w : World) : PoolAct Op Env → Prop
  | .spawn _ => True
  | .run i env => ∀ next ∈ nextCall w i, ∀ s ∈ w.shared.droppedLate.lookup i,
      w.shared.isOpen s = true → (exec limits i next.1 w.shared env next.2).2.isOpen s = true

instance instDecidableNoCloseMeanwhile (w : World) (a : PoolAct Op Env) :
    Decidable (NoCloseMeanwhile limits w a) := by
  cases a <;> dsimp only [NoCloseMeanwhile] <;> infer_instance

instance instDecidableNoLateDrop (w : World) (a : PoolAct Op Env) : Decidable (NoLateDrop w a) := by
  cases a <;> dsimp only [NoLateDrop] <;> infer_instance

instance instDecidableHarmlessDrop (w : World) (a : PoolAct Op Env) :
    Decidable (HarmlessDrop limits w a) := by
  cases a <;> dsimp only [HarmlessDrop] <;> infer_instance

/-- The answer of a finished operation. -/
def answer (w : World) (i : Nat) : Option (Op × Reply) :=
  match w.tasks[i]? with
  | some (op, .ret reply) => some (op, reply)
  | _ => none

/-- An event that was sent was queued on an open session. -/
def SentLive (w : World) : Prop :=
  ∀ i nodeId event, answer w i = some (.enqueue nodeId event, .sent true) →
    ∃ record ∈ w.shared.queued, record.task = i ∧ record.event = event ∧ record.live = true

/-- What is delivered to the nodes. -/
structure Delivered (w : World) : Prop where
  /-- A poll returns an event that was queued on its session. -/
  source : ∀ i op s event, answer w i = some (op, .event s event) →
    ∃ record, w.shared.queued[event.serial]? = some record ∧ record.session = s ∧
      record.event = event.value
  /-- No other poll returns it. -/
  once : ∀ i j op op' s event event', answer w i = some (op, .event s event) →
    answer w j = some (op', .event s event') → event.serial = event'.serial → i = j
  /-- The events that polls return are on record, in the order they were queued. -/
  logged : ∀ i op s event, answer w i = some (op, .event s event) →
    ⟨i, s, event.serial⟩ ∈ w.shared.returned
  ordered : ∀ s, (w.shared.returnedFrom s).Pairwise (· < ·)

/-- The sessions that an `enqueue` has found open are open. -/
def SendsToOpen (r : Runtime) : Prop := ∀ j s, r.sending.lookup j = some s → r.isOpen s = true

def QueuedLive (r : Runtime) : Prop := ∀ record ∈ r.queued, record.live = true

/-- Whoever was dropped late had no session left to close. -/
def LateAfterClose (r : Runtime) : Prop :=
  ∀ j s, r.droppedLate.lookup j = some s → ∃ x, r.objects[s]? = some x ∧ x.closed = true

/-- **The invariant of the runs without a race.** -/
structure Inv (w : World) : Prop where
  holds : Pool.Holds spec (exec limits) w
  sending : SendsToOpen w.shared
  live : QueuedLive w.shared
  late : LateAfterClose w.shared

variable {limits serializedLen} {w : World}

variable {r : Runtime} {s : Nat}

theorem isOpen_lt (h : r.isOpen s = true) : s < r.objects.length := by
  by_contra hle
  rw [Runtime.isOpen, getElem?_eq_none (by omega)] at h
  cases h

variable {i : Nat} {op : Op} {c : Call} {result : c.Answer × Runtime}

theorem Effect.sending {env : Env} (h : Effect i op r env c result) (hsending : SendsToOpen r)
    (hrace : ∀ s, r.isOpen s = true → result.2.isOpen s = false →
      ∀ j, j ≠ i → r.sending.lookup j ≠ some s) : SendsToOpen result.2 := by
  intro j s hj
  by_cases hji : j = i
  · subst hji
    cases h with
    | quiet hebbs hopen =>
      rw [hebbs.sending] at hj
      exact hopen s (hsending j s hj)
    | closing _ | pushed _ => exact absurd rfl (Table.lookup_erase_eq_some hj).1
    | found _ hopen =>
      obtain ⟨-, rfl⟩ | ⟨hne, -⟩ := Table.lookup_insert_eq_some hj
      · exact hopen
      · exact absurd rfl hne
    | @popped s' _ event rest _ _ =>
      have hkeeps : ∀ x, (WatchSession.popFront event rest x).closed = x.closed := fun _ => rfl
      exact (isOpen_update hkeeps s' s).trans (hsending j s hj)
    | late _ _ => exact hsending j s hj
  · -- another task's: had its session been closed, it would have been in the way
    rw [(h.rely (Ne.symm hji)).sending] at hj
    cases hopen : result.2.isOpen s with
    | true => rfl
    | false => exact absurd hj (hrace s (hsending j s hj) hopen j hji)

theorem Effect.closed {env : Env}
    (h : Effect i op r env c result) {x : WatchSession} (hx : r.objects[s]? = some x)
    (hclosed : x.closed = true) : ∃ x', result.2.objects[s]? = some x' ∧ x'.closed = true := by
  have hebb : ∀ {r'}, Ebbs r r' → ∃ x', r'.objects[s]? = some x' ∧ x'.closed = true := by
    intro r' hebbs
    obtain ⟨x', hx', -, hstays⟩ := hebbs.object s x hx
    exact ⟨x', hx', hstays hclosed⟩
  have hupdate : ∀ (s' : Nat) {f : WatchSession → WatchSession}, (∀ x, (f x).closed = x.closed) →
      ∃ x', (r.update s' f).objects[s]? = some x' ∧ x'.closed = true := by
    intro s' f hf
    rw [Runtime.update, getElem?_modify, hx]
    refine ⟨if s' = s then f x else x, rfl, ?_⟩
    split
    · exact (hf x).trans hclosed
    · exact hclosed
  cases h with
  | quiet hebbs _ => exact hebb hebbs
  | closing hebbs =>
    obtain ⟨x', hx', hclosed'⟩ := hebb hebbs
    exact ⟨x', hx', hclosed'⟩
  | found _ _ | late _ _ => exact ⟨x, hx, hclosed⟩
  | pushed _ | popped _ _ => exact hupdate _ fun _ => rfl

theorem Effect.live {env : Env} (h : Effect i op r env c result) (hlive : QueuedLive r)
    (hopen : ∀ s value bytes, c = .push s value bytes → r.isOpen s = true) :
    QueuedLive result.2 := by
  cases h with
  | quiet hebbs _ | closing hebbs =>
    rw [QueuedLive, hebbs.queued]
    exact hlive
  | pushed _ =>
    intro record hmem
    rcases mem_append.mp hmem with hold | hnew
    · exact hlive record hold
    · rw [mem_singleton.mp hnew]
      exact hopen _ _ _ rfl
  | found _ _ | popped _ _ | late _ _ => exact hlive

theorem Effect.droppedLate {env : Env} (h : Effect i op r env c result)
    (hdrop : dropsLate r env c = false) (hlate : LateAfterClose r) : LateAfterClose result.2 := by
  intro j s hj
  have hold : r.droppedLate.lookup j = some s →
      ∃ x, result.2.objects[s]? = some x ∧ x.closed = true := by
    intro hj
    obtain ⟨x, hx, hclosed⟩ := hlate j s hj
    exact h.closed hx hclosed
  cases h with
  | quiet hebbs _ | closing hebbs =>
    rw [hebbs.droppedLate] at hj
    exact hold hj
  | found _ _ | pushed _ | popped _ _ => exact hold hj
  | late hwake hsuperseded =>
    obtain ⟨-, heq⟩ | ⟨-, hj⟩ := Table.lookup_insert_eq_some hj
    · subst heq
      rename_i s _
      cases hx : r.objects[s]? with
      | none => simp [Runtime.superseded, hx] at hsuperseded
      | some x =>
        refine ⟨x, rfl, ?_⟩
        simpa [dropsLate, hwake, hsuperseded, Runtime.isOpen, hx] using hdrop
    · exact hold hj

theorem nextCall_eq {k : c.Answer → WatchProg Reply}
    (htask : w.tasks[i]? = some (op, .call c k)) : (op, c) ∈ nextCall w i := by
  rw [nextCall, htask]
  rfl

theorem inv_start : Inv limits start where
  holds := ⟨.new, fun _ _ => trivial, fun _ _ _ h => by cases h⟩
  sending := fun _ _ h => by cases h
  live := fun _ h => by cases h
  late := fun _ _ h => by cases h

theorem inv_step (w : World) (a : PoolAct Op Env) (h : Inv limits w)
    (hok : NoCloseMeanwhile limits w a ∧ NoLateDrop w a) :
    Inv limits (step limits serializedLen w a).2 where
  holds := h.holds.act (sound limits serializedLen) a
  sending := by
    refine Pool.act_shared (P := SendsToOpen) h.sending fun i env op c k ha htask => ?_
    subst ha
    refine (effect_exec limits i op w.shared env c).sending h.sending fun s hopen hclosed j hji hj => ?_
    refine hok.1 (op, c) (nextCall_eq htask) s (mem_range.mpr (isOpen_lt hopen)) hopen hclosed j ?_ hji hj
    exact AList.lookup_isSome.mp (by rw [hj]; rfl)
  live := by
    refine Pool.act_shared (P := QueuedLive) h.live fun i env op c k ha htask => ?_
    refine (effect_exec limits i op w.shared env c).live h.live fun s value bytes hc => ?_
    have hmay := h.holds.may (sound limits serializedLen) htask
    subst hc
    exact h.sending i s hmay
  late := by
    refine Pool.act_shared (P := LateAfterClose) h.late fun i env op c k ha htask => ?_
    subst ha
    have hdrop := hok.2 (op, c) (nextCall_eq htask)
    exact (effect_exec limits i op w.shared env c).droppedLate hdrop h.late

theorem Inv.harmlessDrop (h : Inv limits w) (a : PoolAct Op Env) : HarmlessDrop limits w a := by
  cases a with
  | spawn op => trivial
  | run i env =>
    intro next _ s hs hopen
    obtain ⟨x, hx, hclosed⟩ := h.late i s hs
    rw [Runtime.isOpen, hx, Option.any_some, hclosed] at hopen
    cases hopen

section Holds

variable (h : Pool.Holds spec (exec limits) w)
include h

/-- What a finished operation has told is so. -/
theorem holds_post {reply : Reply} (hanswer : answer w i = some (op, reply)) :
    Post i op reply w.shared := by
  unfold answer at hanswer
  split at hanswer
  · rename_i htask
    cases hanswer
    exact h.safe i op _ htask w.shared h.valid (Rely.refl i _)
  · cases hanswer

theorem holds_event {event : QueuedEvent} (hanswer : answer w i = some (op, .event s event)) :
    OnRecord i s event w.shared :=
  post_event.mp (holds_post h hanswer)

theorem holds_delivered : Delivered w where
  source := fun _ _ _ _ hanswer => (holds_event h hanswer).2
  once := by
    intro i j op op' s event event' hi hj hserial
    have hordered := (pairwise_append.mp (h.valid.ordered s)).1
    have hinj := Pairwise.imp (S := (· ≠ ·)) (fun hlt => Nat.ne_of_lt hlt) hordered
    have heq := inj_on_of_nodup_map hinj (mem_filter.mpr ⟨(holds_event h hi).1, by simp⟩)
      (mem_filter.mpr ⟨(holds_event h hj).1, by simp⟩) hserial
    exact congrArg Returned.task heq
  logged := fun _ _ _ _ hanswer => (holds_event h hanswer).1
  ordered := fun s => (pairwise_append.mp (h.valid.ordered s)).1

end Holds

theorem Inv.sentLive (h : Inv limits w) : SentLive w := by
  intro i nodeId event hanswer
  obtain ⟨record, hmem, htask, hevent⟩ := holds_post h.holds hanswer
  exact ⟨record, hmem, htask, hevent, h.live record hmem⟩

/-- **Delivery to watch nodes**: in every run an event is returned once, in order, by a poll of the
session it was queued on. In the runs where no session is closed between the check and the push of
an `enqueue` and no poll is dropped between being superseded and noticing it, what was sent was
queued on an open session, and no superseded poll closes the session of its successor. -/
theorem watch_delivery (limits : HttpLimits) (serializedLen : Event → Option Nat)
    (acts : List (PoolAct Op Env)) :
    Delivered (after (step limits serializedLen) start acts) ∧
    (Along (step limits serializedLen)
        (fun w a => NoCloseMeanwhile limits w a ∧ NoLateDrop w a) start acts →
      SentLive (after (step limits serializedLen) start acts) ∧
      Along (step limits serializedLen) (HarmlessDrop limits) start acts) := by
  refine ⟨?_, fun h => ⟨(after_inv inv_step acts start inv_start h).sentLive, ?_⟩⟩
  · exact holds_delivered (Pool.holds_after (sound limits serializedLen) .new (fun _ => trivial) acts)
  · exact Along.of_inv inv_step (fun _ a hinv _ => hinv.harmlessDrop a) acts start inv_start h

/-! ### Runs -/

abbrev roomy : HttpLimits := ⟨75, 32, 8, 4096, 512⟩

abbrev tenBytes : Event → Option Nat := fun _ => some 10

abbrev env : Env := ⟨0, .read, .notified⟩

abbrev dropping : Env := ⟨0, .read, .dropped⟩

abbrev calls (i n : Nat) : List (PoolAct Op Env) := List.replicate n (.run i env)

abbrev ring : Event := ⟨"system.notify", none⟩

/-- A watch connects, polls and waits; an event is sent, the poll wakes up and returns it; the
request of the next poll is dropped, which closes the session. -/
abbrev oneEvent : List (PoolAct Op Env) :=
  [.spawn (.connect "watch" "t")] ++ calls 0 1 ++
  [.spawn (.poll (some "t") 4)] ++ calls 1 11 ++
  [.spawn (.enqueue "watch" ring)] ++ calls 2 5 ++ calls 1 3 ++
  [.spawn (.poll (some "t") 4)] ++ calls 3 10 ++ [.run 3 dropping] ++ calls 3 4

theorem watch_delivery_oneEvent :
    (let w := after (step roomy tenBytes) start oneEvent
     answer w 1 = some (.poll (some "t") 4, .event 0 ⟨ring, 10, 0⟩) ∧
     answer w 2 = some (.enqueue "watch" ring, .sent true) ∧
     answer w 3 = some (.poll (some "t") 4, .dropped)) ∧
    Delivered (after (step roomy tenBytes) start oneEvent) ∧
    SentLive (after (step roomy tenBytes) start oneEvent) ∧
    Along (step roomy tenBytes) (HarmlessDrop roomy) start oneEvent := by
  obtain ⟨hdelivered, hcondition⟩ := watch_delivery roomy tenBytes oneEvent
  exact ⟨by decide +kernel, hdelivered, hcondition (by decide +kernel)⟩

/-- The watch disconnects after an `enqueue` has read the closed flag. -/
abbrev sentTooLate : List (PoolAct Op Env) :=
  [.spawn (.connect "watch" "t")] ++ calls 0 1 ++
  [.spawn (.enqueue "watch" ring)] ++ calls 1 4 ++
  [.spawn (.disconnect (some "t"))] ++ calls 2 9 ++ calls 1 1

/-- A second poll supersedes the first one, whose request is dropped before it has run again. -/
abbrev droppedTooLate : List (PoolAct Op Env) :=
  [.spawn (.connect "watch" "t")] ++ calls 0 1 ++
  [.spawn (.poll (some "t") 4)] ++ calls 1 10 ++
  [.spawn (.poll (some "t") 4)] ++ calls 2 7 ++ [.run 1 dropping]

theorem watch_races :
    (let w := after (step roomy tenBytes) start sentTooLate
     answer w 1 = some (.enqueue "watch" ring, .sent true) ∧
     w.shared.queued = [⟨1, 0, ring, false⟩]) ∧
    ¬ SentLive (after (step roomy tenBytes) start sentTooLate) ∧
    (let w := after (step roomy tenBytes) start droppedTooLate
     w.shared.droppedLate.lookup 1 = some 0 ∧ w.shared.isOpen 0 = true ∧
     (after (step roomy tenBytes) w (calls 1 1)).shared.isOpen 0 = false) ∧
    ¬ Along (step roomy tenBytes) (HarmlessDrop roomy) start (droppedTooLate ++ calls 1 1) := by
  have hsent : answer (after (step roomy tenBytes) start sentTooLate) 1
        = some (.enqueue "watch" ring, .sent true) ∧
      (after (step roomy tenBytes) start sentTooLate).shared.queued = [⟨1, 0, ring, false⟩] := by
    decide +kernel
  refine ⟨hsent, fun h => ?_, by decide +kernel, by decide +kernel⟩
  obtain ⟨record, hmem, -, -, hlive⟩ := h 1 "watch" ring hsent.1
  rw [hsent.2, mem_singleton] at hmem
  rw [hmem] at hlive
  cases hlive

end GtaClaw.Watch
