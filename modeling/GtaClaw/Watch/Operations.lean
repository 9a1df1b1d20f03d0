import GtaClaw.Watch.Queue

/-!
# The operations of the watch transport

What an operation may rely on between its calls, and what its answer tells: who queues an
event has found the session open before, and what a poll returns is on record.
-/

namespace GtaClaw.Watch

open Lib List

variable (limits : HttpLimits) (serializedLen : Event → Option Nat)

/-- Nobody else changes how far a task has come with sending, and records stay. -/
structure Rely (i : Nat) (r r' : Runtime) : Prop where
  sending : r'.sending.lookup i = r.sending.lookup i
  queued : r.queued <+: r'.queued
  returned : r.returned <+: r'.returned

/-- Who queues an event has found the session open. -/
def May (i : Nat) (r : Runtime) : Call → Prop
  | .push s _ _ => r.sending.lookup i = some s
  | _ => True

def Post (i : Nat) (op : Op) (reply : Reply) (r : Runtime) : Prop :=
  match op, reply with
  | .enqueue _ event, .sent true => ∃ record ∈ r.queued, record.task = i ∧ record.event = event
  | _, .sent true => False
  | _, .event s event => ⟨i, s, event.serial⟩ ∈ r.returned ∧
      ∃ record, r.queued[event.serial]? = some record ∧ record.session = s ∧
        record.event = event.value
  | _, _ => True

def spec : Pool.Spec Runtime Op Call Reply where
  valid := Tidy
  fresh := fun _ _ => True
  rely := fun i _ => Rely i
  may := fun i _ => May i
  post := Post

abbrev SafeFor (i : Nat) (op : Op) {α : Type} (post : α → Runtime → Prop) (p : WatchProg α)
    (r : Runtime) : Prop :=
  Prog.Safe (exec limits i op) Tidy (Rely i) (May i) post p r

theorem Rely.refl (i : Nat) (r : Runtime) : Rely i r r := ⟨rfl, prefix_rfl, prefix_rfl⟩

variable {i : Nat}

theorem Rely.trans {a b c : Runtime} (h : Rely i a b) (h' : Rely i b c) : Rely i a c :=
  ⟨h'.sending.trans h.sending, h.queued.trans h'.queued, h.returned.trans h'.returned⟩

variable {r : Runtime}

theorem Ebbs.rely {r' : Runtime} (h : Ebbs r r') (i : Nat) : Rely i r r' :=
  ⟨by rw [h.sending], h.queued ▸ prefix_rfl, h.returned ▸ prefix_rfl⟩

variable {op : Op} {nodeId : String} {α : Type} {reply : Reply} {event : Event} {s : Nat}

theorem Effect.rely {env : Env} {c : Call} {result : c.Answer × Runtime}
    (h : Effect i op r env c result) {j : Nat} (hne : i ≠ j) : Rely j r result.2 := by
  have hne := Ne.symm hne
  cases h with
  | quiet hebbs _ => exact hebbs.rely j
  | closing hebbs =>
    have hrely := hebbs.rely j
    exact ⟨(AList.lookup_erase_ne hne).trans hrely.sending, hrely.queued, hrely.returned⟩
  | found _ _ => exact ⟨AList.lookup_insert_ne hne, prefix_rfl, prefix_rfl⟩
  | pushed _ => exact ⟨AList.lookup_erase_ne hne, prefix_append _ _, prefix_rfl⟩
  | popped _ _ => exact ⟨rfl, prefix_rfl, prefix_append _ _⟩
  | late _ _ => exact ⟨rfl, prefix_rfl, prefix_rfl⟩

/-- A program that queues nothing, and whose answers say nothing of the state. -/
def Quiet {α : Type} (P : α → Prop) : WatchProg α → Prop
  | .ret a => P a
  | .call c k => (∀ s value bytes, c ≠ .push s value bytes) ∧ ∀ answer, Quiet P (k answer)

open Quiet

theorem Quiet.safe {P : α → Prop} {post : α → Runtime → Prop}
    (hpost : ∀ a r, P a → post a r) : ∀ {p : WatchProg α} {r : Runtime}, Quiet P p →
      SafeFor limits i op post p r
  | .ret a, _, h => fun r' _ _ => hpost a r' h
  | .call c _, _, h => fun _ _ _ => by
    refine ⟨?_, fun _ => safe hpost (h.2 _)⟩
    cases c with
    | push s value bytes => exact absurd rfl (h.1 s value bytes)
    | _ => trivial

theorem Quiet.bind {α β : Type} {P : α → Prop} {Q : β → Prop} {f : α → WatchProg β}
    (hf : ∀ a, P a → Quiet Q (f a)) : ∀ {p : WatchProg α}, Quiet P p → Quiet Q (p >>= f)
  | .ret a, h => hf a h
  | .call _ _, h => ⟨h.1, fun answer => bind hf (h.2 answer)⟩

theorem Quiet.ask {P : α → Prop} {c : Call} {k : c.Answer → WatchProg α}
    (hc : ∀ s value bytes, c ≠ .push s value bytes) (h : ∀ answer, Quiet P (k answer)) :
    Quiet P (ask c >>= k) := ⟨hc, h⟩

theorem Quiet.close {P : α → Prop} {p : WatchProg α} (s : Nat) (h : Quiet P p) :
    Quiet P (do closeSession s; p) :=
  ⟨nofun, fun _ => ⟨nofun, fun _ => ⟨nofun, fun _ => ⟨nofun, fun _ => h⟩⟩⟩⟩

theorem quiet_unusable (s : Nat) : Quiet (fun _ => True) (unusable limits s) := by
  refine Quiet.ask nofun fun closed => ?_
  cases closed with
  | true => trivial
  | false => exact Quiet.ask nofun fun _ => trivial

theorem quiet_session (token : String) : Quiet (fun _ => True) (session limits token) := by
  refine Quiet.ask nofun fun found => ?_
  cases found with
  | none => trivial
  | some s =>
    refine Quiet.bind (fun bad _ => ?_) (quiet_unusable limits s)
    cases bad with
    | true => exact Quiet.close s trivial
    | false => exact Quiet.ask nofun fun _ => trivial

variable (token : Option String)

theorem quiet_authenticated : Quiet (fun _ => True) (authenticatedSession limits token) := by
  cases token with
  | none => trivial
  | some token => exact quiet_session limits token

def Silent : Reply → Prop
  | .sent true | .event .. => False
  | _ => True

theorem Silent.post (h : Silent reply) (i : Nat) (op : Op) (r : Runtime) : Post i op reply r := by
  cases reply with
  | sent accepted =>
    cases accepted with
    | true => exact h.elim
    | false => cases op <;> trivial
  | event s event => exact h.elim
  | _ => cases op <;> trivial

theorem Quiet.safePost {p : WatchProg Reply}
    (h : Quiet Silent p) : SafeFor limits i op (Post i op) p r :=
  h.safe limits fun _ r hsilent => hsilent.post i op r

/-- What a poll returns is on record. -/
def OnRecord (i s : Nat) (event : QueuedEvent) (r : Runtime) : Prop :=
  ⟨i, s, event.serial⟩ ∈ r.returned ∧
    ∃ record, r.queued[event.serial]? = some record ∧ record.session = s ∧ record.event = event.value

theorem post_event {event : QueuedEvent} : Post i op (.event s event) r ↔ OnRecord i s event r := by
  cases op <;> rfl

theorem Post.mono {r' : Runtime} (h : Post i op reply r)
    (hrely : Rely i r r') : Post i op reply r' := by
  cases reply with
  | sent accepted =>
    cases accepted with
    | true =>
      cases op with
      | enqueue nodeId event =>
        obtain ⟨record, hmem, htask, hevent⟩ := h
        exact ⟨record, hrely.queued.subset hmem, htask, hevent⟩
      | _ => exact h.elim
    | false => cases op <;> trivial
  | event s event =>
    obtain ⟨hmem, record, hrecord, hsource⟩ := post_event.mp h
    obtain ⟨since, hsince⟩ := hrely.queued
    obtain ⟨hlt, -⟩ := List.getElem?_eq_some_iff.mp hrecord
    refine post_event.mpr ⟨hrely.returned.subset hmem, record, ?_, hsource⟩
    rw [← hsince, getElem?_append_left hlt, hrecord]
  | _ => cases op <;> trivial

theorem safe_ret (h : Post i op reply r) :
    SafeFor limits i op (Post i op) (.ret reply) r := fun _ _ hrely => h.mono hrely

/-- A poll returns what it takes from the queue. -/
theorem safe_pop {k : Option QueuedEvent → WatchProg Reply}
    (hsome : ∀ event, k (some event) = .ret (.event s event))
    (hnone : ∀ r, Tidy r → SafeFor limits i op (Post i op) (k none) r) :
    SafeFor limits i op (Post i op) (ask (.pop s) >>= k) r := by
  refine fun r' htidy _ => ⟨trivial, fun env => ?_⟩
  change SafeFor limits i op (Post i op) (k (r'.pop i s).1) (r'.pop i s).2
  cases hanswer : (r'.pop i s).1 with
  | none => exact hnone _ (htidy.call (effect_exec limits i op r' env (.pop s)))
  | some event =>
    rw [hsome]
    refine safe_ret limits ?_
    unfold Runtime.pop at hanswer ⊢
    cases hx : r'.objects[s]? with
    | none => simp [hx] at hanswer
    | some x =>
      cases hevents : x.events with
      | nil => simp [hx, hevents] at hanswer
      | cons head rest =>
        simp only [hx, hevents, Option.some.injEq] at hanswer ⊢
        subst hanswer
        refine post_event.mpr ⟨mem_append_right _ (mem_singleton.mpr rfl), htidy.known s head ?_⟩
        rw [eventsOf_eq hx, hevents]
        exact mem_cons_self

theorem safe_ask {post : α → Runtime → Prop} {c : Call}
    {k : c.Answer → WatchProg α} (hc : ∀ s value bytes, c ≠ .push s value bytes)
    (h : ∀ answer r, Tidy r → SafeFor limits i op post (k answer) r) :
    SafeFor limits i op post (ask c >>= k) r := by
  refine fun r' htidy _ => ⟨?_, fun env => h _ _ (htidy.call (effect_exec limits i op r' env c))⟩
  cases c with
  | push s value bytes => exact absurd rfl (hc s value bytes)
  | _ => trivial

theorem safe_pollLoop (s : Nat) (generation : UInt64) : ∀ (rounds : Nat) (r : Runtime),
    Tidy r → SafeFor limits i op (Post i op) (pollLoop s generation rounds) r
  | 0, r, _ => safePost limits trivial
  | rounds + 1, r, _ => by
    refine safe_ask limits nofun fun closed r _ => ?_
    cases closed with
    | true => exact safePost limits trivial
    | false =>
      refine safe_ask limits nofun fun now r _ => ?_
      split
      · exact safePost limits trivial
      refine safe_pop limits (fun _ => rfl) fun r _ => ?_
      refine safe_ask limits nofun fun wake r htidy => ?_
      cases wake with
      | notified => exact safe_pollLoop s generation rounds r htidy
      | deadline => exact safePost limits trivial
      | dropped => exact safePost limits (close s trivial)

/-- After the session was looked up, which tells nothing. -/
theorem safe_authenticated {token : Option String}
    {k : Option Nat → WatchProg Reply} (htidy : Tidy r)
    (h : ∀ found r, Tidy r → SafeFor limits i op (Post i op) (k found) r) :
    SafeFor limits i op (Post i op) (authenticatedSession limits token >>= k) r :=
  Prog.Safe.bind (fun t _ => Rely.refl i t)
    (fun t e c ht _ => ht.call (effect_exec limits i op t e c)) htidy
    ((quiet_authenticated limits token).safe limits fun _ _ h => h)
    fun found t ht _ => h found t ht

/-- The session was found open and nobody else speaks for this task. -/
theorem safe_offer (hsending : r.sending.lookup i = some s) :
    SafeFor limits i (.enqueue nodeId event) (Post i (.enqueue nodeId event))
      (offer limits serializedLen s event) r := by
  unfold offer
  cases serializedLen event with
  | none => exact safePost limits trivial
  | some bytes =>
    dsimp only
    split
    · exact safePost limits (close s trivial)
    refine fun r' _ hrely => ⟨hrely.sending.trans hsending, fun env => ?_⟩
    change SafeFor limits i _ _ (if (r'.push limits i s event bytes).1 = true then
      .ret (.sent true) else do closeSession s; return Reply.sent false)
      (r'.push limits i s event bytes).2
    split_ifs with hpushed
    · refine safe_ret limits ?_
      unfold Runtime.push at hpushed ⊢
      cases hx : r'.objects[s]? with
      | none => simp [hx] at hpushed
      | some x =>
        simp only [hx] at hpushed ⊢
        split at hpushed
        · cases hpushed
        rename_i hroom
        rw [if_neg hroom]
        exact ⟨_, mem_append_right _ (mem_singleton.mpr rfl), rfl, rfl⟩
    · exact safePost limits (close s trivial)

/-- An `enqueue` that goes on has found the session open. -/
theorem safe_unusable (s : Nat) :
    SafeFor limits i (.enqueue nodeId event)
      (fun bad r => bad = false → r.sending.lookup i = some s) (unusable limits s) r := by
  refine fun r' _ _ => ⟨trivial, fun env => ?_⟩
  change SafeFor limits i _ _ (if (r'.readClosed i (.enqueue nodeId event) s).1 = true then
    .ret true else do return limits.watchIdleTimeout ≤ (← ask (.idleElapsed s)))
    (r'.readClosed i (.enqueue nodeId event) s).2
  cases hopen : r'.isOpen s with
  | false =>
    simp only [Runtime.readClosed, hopen]
    exact fun _ _ _ hbad => by cases hbad
  | true =>
    simp only [Runtime.readClosed, hopen]
    refine fun _ _ hrely => ⟨trivial, fun _ _ _ hrely' _ => ?_⟩
    exact (hrely'.sending.trans hrely.sending).trans (AList.lookup_insert _)

theorem sound : Pool.Sound spec (body limits serializedLen) (exec limits) where
  refl := fun i _ r _ => Rely.refl i r
  trans := fun _ _ _ _ _ h h' => h.trans h'
  keeps := fun i op r e c h _ => h.call (effect_exec limits i op r e c)
  frames := fun i op _ _ r e c hne _ _ => (effect_exec limits i op r e c).rely hne
  untouched := fun _ _ _ _ _ _ _ _ _ => trivial
  starts := by
    intro i op r htidy _
    cases op with
    | enqueue nodeId event =>
      refine safe_ask limits nofun fun token r _ => ?_
      cases token with
      | none => exact safePost limits trivial
      | some token =>
        refine safe_ask limits nofun fun found r htidy => ?_
        cases found with
        | none => exact safePost limits trivial
        | some s =>
          refine Prog.Safe.bind (fun t _ => Rely.refl i t)
            (fun t e c ht _ => ht.call (effect_exec limits i _ t e c)) htidy
            (safe_unusable limits s) fun bad t _ hfound => ?_
          cases bad with
          | true => exact safePost limits (close s trivial)
          | false => exact safe_offer limits serializedLen (hfound rfl)
    | connect nodeId token => exact safePost limits ⟨nofun, fun _ => trivial⟩
    | poll token rounds =>
      refine safe_authenticated limits htidy fun found r _ => ?_
      cases found with
      | none => exact safePost limits trivial
      | some s =>
        refine safe_ask limits nofun fun drained r _ => ?_
        cases drained with
        | failed | dropped => exact safePost limits trivial
        | read =>
          refine safe_pop limits (fun _ => rfl) fun r _ => ?_
          exact safe_ask limits nofun fun generation r htidy =>
            safe_pollLoop limits s generation rounds r htidy
    | disconnect token =>
      refine safe_authenticated limits htidy fun found r _ => ?_
      cases found with
      | none => exact safePost limits trivial
      | some s =>
        refine safe_ask limits nofun fun drained r _ => safePost limits ?_
        cases drained with
        | failed | dropped => trivial
        | read => exact close s trivial
    | result token =>
      refine safe_authenticated limits htidy fun found r _ => safePost limits ?_
      cases found <;> trivial

end GtaClaw.Watch
