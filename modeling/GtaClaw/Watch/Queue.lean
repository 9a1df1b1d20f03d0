import GtaClaw.Watch.Transport

/-!
# The queues of watch sessions

What each call does to the sessions. The queue is first in, first out, and every access
to it holds its lock, so whatever the polls do an event is returned once and in order.
-/

namespace GtaClaw.Watch

open Lib List

namespace Runtime

def eventsOf (r : Runtime) (s : Nat) : List QueuedEvent := (r.objects[s]?.map (·.events)).getD []

/-- The numbers of the events of a session, in the order they were returned. -/
def returnedFrom (r : Runtime) (s : Nat) : List Nat :=
  (r.returned.filter (·.session = s)).map (·.serial)

end Runtime

variable {x : WatchSession} {r : Runtime}

theorem eventsOf_eq {s : Nat} (h : r.objects[s]? = some x) : r.eventsOf s = x.events := by
  rw [Runtime.eventsOf, h]
  rfl

/-! ## What calls do to the sessions -/

/-- Nothing is queued or returned: sessions can only be closed and cleared, and new ones are
empty. -/
structure Ebbs (r r' : Runtime) : Prop where
  object : ∀ (s : Nat) (x : WatchSession), r.objects[s]? = some x → ∃ x', r'.objects[s]? = some x' ∧
    (x'.events = x.events ∨ x'.events = []) ∧ (x.closed = true → x'.closed = true)
  fresh : ∀ (s : Nat) (x' : WatchSession), r.objects[s]? = none → r'.objects[s]? = some x' → x'.events = []
  queued : r'.queued = r.queued
  returned : r'.returned = r.returned
  sending : r'.sending = r.sending
  droppedLate : r'.droppedLate = r.droppedLate

variable {f : WatchSession → WatchSession}

namespace Ebbs

variable {r r' r'' : Runtime}

theorem refl (r : Runtime) : Ebbs r r where
  object := fun _ x h => ⟨x, h, .inl rfl, id⟩
  fresh := fun _ _ hnone h => by rw [hnone] at h; cases h
  queued := rfl
  returned := rfl
  sending := rfl
  droppedLate := rfl

theorem trans (h : Ebbs r r') (h' : Ebbs r' r'') : Ebbs r r'' where
  object := by
    intro s x hx
    obtain ⟨x', hx', hevents, hclosed⟩ := h.object s x hx
    obtain ⟨x'', hx'', hevents', hclosed'⟩ := h'.object s x' hx'
    refine ⟨x'', hx'', ?_, fun hx => hclosed' (hclosed hx)⟩
    rcases hevents' with heq | hnil
    · rw [heq]
      exact hevents
    · exact .inr hnil
  fresh := by
    intro s x'' hnone hx''
    cases hx' : r'.objects[s]? with
    | none => exact h'.fresh s x'' hx' hx''
    | some x' =>
      obtain ⟨y, hy, hevents, -⟩ := h'.object s x' hx'
      rw [hx''] at hy
      cases hy
      rcases hevents with heq | hnil
      · rw [heq]
        exact h.fresh s x' hnone hx'
      · exact hnil
  queued := h'.queued.trans h.queued
  returned := h'.returned.trans h.returned
  sending := h'.sending.trans h.sending
  droppedLate := h'.droppedLate.trans h.droppedLate

theorem update (r : Runtime) (s : Nat) (hevents : ∀ x, (f x).events = x.events ∨ (f x).events = [])
    (hclosed : ∀ x, x.closed = true → (f x).closed = true) : Ebbs r (r.update s f) where
  object := by
    intro s' x hx
    rw [Runtime.update, getElem?_modify, hx]
    by_cases heq : s = s'
    · exact ⟨f x, by rw [heq]; simp, hevents x, hclosed x⟩
    · exact ⟨x, by simp [heq], .inl rfl, id⟩
  fresh := by
    intro s' x' hnone hx'
    rw [Runtime.update, getElem?_modify, hnone] at hx'
    cases hx'
  queued := rfl
  returned := rfl
  sending := rfl
  droppedLate := rfl

theorem tables (r : Runtime) (sessions : Table String Nat) (nodeTokens : Table String String) :
    Ebbs r { r with sessions := sessions, nodeTokens := nodeTokens } :=
  ⟨(refl r).object, (refl r).fresh, rfl, rfl, rfl, rfl⟩

theorem close (r : Runtime) (s : Nat) : Ebbs r (r.update s .close) :=
  update r s (fun _ => .inr rfl) (fun _ _ => rfl)

theorem removeSession (r : Runtime) (token : String) : Ebbs r (r.removeSession token) := by
  unfold Runtime.removeSession
  split
  · exact refl r
  have hclosed := (tables r (r.sessions.erase token) r.nodeTokens).trans (close _ ‹Nat›)
  dsimp only
  split
  · split
    · exact hclosed.trans (tables _ _ _)
    · exact hclosed
  · exact hclosed

theorem evict (now capacity : Nat) : ∀ (fuel : Nat) (r : Runtime),
    Ebbs r (r.evict now capacity fuel)
  | 0, r => refl r
  | fuel + 1, r => by
    unfold Runtime.evict
    split
    · split
      · exact (removeSession r _).trans (evict now capacity fuel _)
      · exact refl r
    · exact refl r

theorem removeSessions : ∀ (tokens : List String) (r : Runtime),
    Ebbs r (tokens.foldl Runtime.removeSession r)
  | [], r => refl r
  | token :: tokens, r => (removeSession r token).trans (removeSessions tokens _)

theorem pruneSessions (limits : HttpLimits) (now : Nat) (r : Runtime) :
    Ebbs r (r.pruneSessions limits now) := (removeSessions _ r).trans (evict _ _ _ _)

theorem replacePrevious (r : Runtime) (nodeId : String) : Ebbs r (r.replacePrevious nodeId) := by
  unfold Runtime.replacePrevious
  split
  · exact refl r
  dsimp only
  split
  · exact (tables r _ _).trans (close _ _)
  · exact tables r _ _

theorem insertSession (limits : HttpLimits) (now : Nat) (nodeId token : String) (r : Runtime) :
    Ebbs r (r.insertSession limits now nodeId token).2 := by
  have hroom := (replacePrevious r nodeId).trans (pruneSessions limits now _)
  refine hroom.trans ⟨fun s x hx => ⟨x, ?_, .inl rfl, id⟩, fun s x' hnone hx' => ?_, rfl, rfl, rfl, rfl⟩
  · obtain ⟨hlt, -⟩ := List.getElem?_eq_some_iff.mp hx
    exact (getElem?_append_left hlt).trans hx
  · rcases getElem?_concat_some hx' with hold | ⟨-, rfl⟩
    · rw [hnone] at hold
      cases hold
    · rfl

theorem eventsOf (h : Ebbs r r') (s : Nat) : r'.eventsOf s = r.eventsOf s ∨ r'.eventsOf s = [] := by
  cases hx : r.objects[s]? with
  | some x =>
    obtain ⟨x', hx', hevents, -⟩ := h.object s x hx
    rw [eventsOf_eq hx, eventsOf_eq hx']
    exact hevents
  | none =>
    cases hx' : r'.objects[s]? with
    | some x' => exact .inr ((eventsOf_eq hx').trans (h.fresh s x' hx hx'))
    | none =>
      rw [Runtime.eventsOf, hx']
      exact .inr rfl

end Ebbs

section Calls

variable {limits : HttpLimits} {i : Nat} {op : Op} {r : Runtime} {env : Env}

/-- Everything that a call can do. -/
inductive Effect (i : Nat) (op : Op) (r : Runtime) (env : Env) :
    (c : Call) → c.Answer × Runtime → Prop where
  /-- The sessions at most ebb, and nobody is closed. -/
  | quiet {c : Call} {answer : c.Answer} {r' : Runtime} (hebbs : Ebbs r r')
      (hopen : ∀ s, r.isOpen s = true → r'.isOpen s = true) : Effect i op r env c (answer, r')
  /-- Sessions may be closed. -/
  | closing {c : Call} {answer : c.Answer} {r' : Runtime} (hebbs : Ebbs r r') :
      Effect i op r env c (answer, { r' with sending := r'.sending.erase i })
  /-- An `enqueue` has found its session open. -/
  | found {s : Nat} {nodeId : String} {event : Event} (hop : op = .enqueue nodeId event)
      (hopen : r.isOpen s = true) :
      Effect i op r env (.isClosed s) (false, { r with sending := r.sending.insert i s })
  | pushed {s : Nat} {x : WatchSession} {value : Event} {bytes : Nat}
      (hx : r.objects[s]? = some x) :
      Effect i op r env (.push s value bytes) (true,
        { r.update s (.pushBack ⟨value, bytes, r.queued.length⟩) with
          queued := r.queued ++ [⟨i, s, value, r.isOpen s⟩]
          sending := r.sending.erase i })
  | popped {s : Nat} {x : WatchSession} {event : QueuedEvent} {rest : List QueuedEvent}
      (hx : r.objects[s]? = some x) (hevents : x.events = event :: rest) :
      Effect i op r env (.pop s) (some event,
        { r.update s (.popFront event rest) with
          returned := r.returned ++ [⟨i, s, event.serial⟩] })
  /-- A superseded poll is dropped. -/
  | late {s : Nat} {generation : UInt64} (hwake : env.wake = .dropped)
      (hsuperseded : r.superseded s generation = true) :
      Effect i op r env (.wait s generation)
        (env.wake, { r with droppedLate := r.droppedLate.insert i s })

theorem Effect.same {c : Call} (answer : c.Answer) : Effect i op r env c (answer, r) :=
  .quiet (.refl r) fun _ => id

theorem isOpen_update (hclosed : ∀ x, (f x).closed = x.closed)
    (s s' : Nat) : (r.update s f).isOpen s' = r.isOpen s' := by
  unfold Runtime.isOpen Runtime.update
  rw [getElem?_modify]
  cases r.objects[s']? with
  | none => rfl
  | some x => by_cases heq : s = s' <;> simp [heq, hclosed]

theorem Effect.update {c : Call} (answer : c.Answer) (s : Nat)
    (hevents : ∀ x, (f x).events = x.events ∨ (f x).events = [])
    (hclosed : ∀ x, (f x).closed = x.closed) : Effect i op r env c (answer, r.update s f) :=
  .quiet (.update r s hevents fun x hx => (hclosed x).trans hx) fun s' h => by
    rw [isOpen_update hclosed]
    exact h

theorem Effect.tables {c : Call} (answer : c.Answer) (sessions : Table String Nat)
    (nodeTokens : Table String String) :
    Effect i op r env c (answer, { r with sessions := sessions, nodeTokens := nodeTokens }) :=
  .quiet (.tables r _ _) fun _ => id

theorem effect_exec (limits : HttpLimits) (i : Nat) (op : Op) (r : Runtime) (env : Env) (c : Call) :
    Effect i op r env c (exec limits i op r env c) := by
  cases c with
  | tokenOf nodeId | sessionOf token | idleElapsed s | generation s => exact .same _
  | isClosed s =>
    dsimp only [exec, Runtime.readClosed]
    cases op with
    | enqueue nodeId event =>
      by_cases hopen : r.isOpen s = true
      · simp only [hopen]
        exact .found rfl hopen
      · simp only [hopen]
        exact .same _
    | _ => exact .same _
  | touch s | supersede s => exact .update _ s (fun _ => .inl rfl) fun _ => rfl
  | markClosed s => exact .closing (.update r s (fun _ => .inl rfl) fun _ _ => rfl)
  | clearQueue s => exact .update _ s (fun _ => .inr rfl) fun _ => rfl
  | forget s =>
    dsimp only [exec, Runtime.forget]
    split
    · exact .tables _ _ _
    · exact .same _
  | release s =>
    dsimp only [exec, Runtime.release]
    split
    · split
      · exact .tables _ _ _
      · exact .same _
    · exact .same _
  | push s value bytes =>
    dsimp only [exec, Runtime.push]
    split
    · exact .same _
    split
    · exact .same _
    · rename_i x hx _
      exact .pushed hx
  | pop s =>
    dsimp only [exec, Runtime.pop]
    split
    · exact .same _
    rename_i x hx
    cases hevents : x.events with
    | nil => exact .same _
    | cons event rest => exact .popped hx hevents
  | insertSession nodeId token => exact .closing (.insertSession limits env.now nodeId token r)
  | drain => exact .same _
  | wait s generation =>
    dsimp only [exec, Runtime.wait]
    split_ifs with hlate
    · exact .late hlate.1 hlate.2
    · exact .same _

end Calls

/-! ## Once and in order -/

/-- **The invariant of the queues.** -/
structure Tidy (r : Runtime) : Prop where
  /-- What a session has returned and what waits in its queue, as it was queued. -/
  ordered : ∀ s, (r.returnedFrom s ++ (r.eventsOf s).map (·.serial)).Pairwise (· < ·)
  known : ∀ s, ∀ event ∈ r.eventsOf s, ∃ record, r.queued[event.serial]? = some record ∧
    record.session = s ∧ record.event = event.value
  past : ∀ x ∈ r.returned, x.serial < r.queued.length

namespace Tidy

variable {r r' : Runtime}

theorem new : Tidy .new where
  ordered := fun _ => .nil
  known := fun _ _ h => by cases h
  past := fun _ h => by cases h

theorem ebb (h : Tidy r) (hebbs : Ebbs r r') : Tidy r' where
  ordered := by
    intro s
    rw [Runtime.returnedFrom, hebbs.returned]
    rcases hebbs.eventsOf s with heq | hnil
    · rw [heq]
      exact h.ordered s
    · rw [hnil, map_nil, append_nil]
      exact (pairwise_append.mp (h.ordered s)).1
  known := by
    intro s event hmem
    rw [hebbs.queued]
    rcases hebbs.eventsOf s with heq | hnil
    · exact h.known s event (heq ▸ hmem)
    · rw [hnil] at hmem
      cases hmem
  past := by
    rw [hebbs.returned, hebbs.queued]
    exact h.past

/-- The records of what is going on do not matter. -/
theorem frame (h : Tidy r) (sending droppedLate : Table Nat Nat) :
    Tidy { r with sending := sending, droppedLate := droppedLate } :=
  { h with }

theorem serial_lt (h : Tidy r) {s : Nat} {event : QueuedEvent} (hmem : event ∈ r.eventsOf s) :
    event.serial < r.queued.length := by
  obtain ⟨record, hrecord, -⟩ := h.known s event hmem
  exact (List.getElem?_eq_some_iff.mp hrecord).1

end Tidy

theorem eventsOf_update {s : Nat} (hx : r.objects[s]? = some x) (s' : Nat) :
    (r.update s f).eventsOf s' = if s' = s then (f x).events else r.eventsOf s' := by
  unfold Runtime.eventsOf Runtime.update
  rw [getElem?_modify]
  by_cases heq : s' = s
  · rw [heq, hx]
    simp
  · simp [heq, Ne.symm heq]

theorem Tidy.push (h : Tidy r) {i s : Nat} {value : Event}
    {bytes : Nat} {live : Bool} (hx : r.objects[s]? = some x)
    (hf : (f x).events = x.events ++ [⟨value, bytes, r.queued.length⟩]) :
    Tidy { r.update s f with queued := r.queued ++ [⟨i, s, value, live⟩] } where
  ordered := by
    intro s'
    change (r.returnedFrom s' ++ ((r.update s f).eventsOf s').map (·.serial)).Pairwise (· < ·)
    rw [eventsOf_update hx]
    split_ifs with heq
    · rw [hf, map_append, ← append_assoc, heq, ← eventsOf_eq hx, pairwise_append]
      refine ⟨h.ordered s, pairwise_singleton _ _, fun n hn m hm => ?_⟩
      rw [mem_singleton.mp hm]
      rcases mem_append.mp hn with hret | hqueue
      · obtain ⟨x, hx, rfl⟩ := mem_map.mp hret
        exact h.past x (mem_of_mem_filter hx)
      · obtain ⟨event, hmem, rfl⟩ := mem_map.mp hqueue
        exact h.serial_lt hmem
    · exact h.ordered s'
  known := by
    intro s' event hmem
    have hold : ∀ event ∈ r.eventsOf s', ∃ record,
        (r.queued ++ [⟨i, s, value, live⟩])[event.serial]? = some record ∧
          record.session = s' ∧ record.event = event.value := by
      intro event hmem
      obtain ⟨record, hrecord, hsession, hevent⟩ := h.known s' event hmem
      exact ⟨record, (getElem?_append_left (h.serial_lt hmem)).trans hrecord, hsession, hevent⟩
    change event ∈ (r.update s f).eventsOf s' at hmem
    rw [eventsOf_update hx] at hmem
    split_ifs at hmem with heq
    · rw [hf, ← eventsOf_eq hx, ← heq] at hmem
      rcases mem_append.mp hmem with hmem | hnew
      · exact hold event hmem
      · rw [mem_singleton.mp hnew]
        exact ⟨_, getElem?_concat_length, heq.symm, rfl⟩
    · exact hold event hmem
  past := by
    intro y hy
    rw [length_append]
    exact Nat.lt_add_right _ (h.past y hy)

theorem Tidy.pop (h : Tidy r) {i s : Nat} {event : QueuedEvent}
    {rest : List QueuedEvent} (hx : r.objects[s]? = some x)
    (hevents : x.events = event :: rest) (hf : (f x).events = rest) :
    Tidy { r.update s f with returned := r.returned ++ [⟨i, s, event.serial⟩] } where
  ordered := by
    intro s'
    change (Runtime.returnedFrom { r with returned := r.returned ++ [⟨i, s, event.serial⟩] } s' ++
      ((r.update s f).eventsOf s').map (·.serial)).Pairwise (· < ·)
    have hold := h.ordered s'
    unfold Runtime.returnedFrom at hold ⊢
    rw [eventsOf_update hx]
    split
    · rename_i heq
      rw [heq, eventsOf_eq hx, hevents] at hold
      simpa [heq, hf] using hold
    · rename_i hne
      simpa [Ne.symm hne] using hold
  known := by
    intro s' e hmem
    change e ∈ (r.update s f).eventsOf s' at hmem
    rw [eventsOf_update hx] at hmem
    split_ifs at hmem with heq
    · refine h.known s' e ?_
      rw [heq, eventsOf_eq hx, hevents]
      rw [hf] at hmem
      exact mem_cons_of_mem _ hmem
    · exact h.known s' e hmem
  past := by
    intro y hy
    rcases mem_append.mp hy with hold | hnew
    · exact h.past y hold
    rw [mem_singleton.mp hnew]
    refine h.serial_lt (s := s) ?_
    rw [eventsOf_eq hx, hevents]
    exact mem_cons_self

theorem Tidy.call {i : Nat} {op : Op} {env : Env} {c : Call}
    {result : c.Answer × Runtime} (h : Tidy r) (heffect : Effect i op r env c result) :
    Tidy result.2 := by
  cases heffect with
  | quiet hebbs _ => exact h.ebb hebbs
  | closing hebbs => exact (h.ebb hebbs).frame _ _
  | found _ _ | late _ _ => exact h.frame _ _
  | pushed hx => exact (h.push hx rfl).frame _ _
  | popped hx hevents => exact h.pop hx hevents rfl

end GtaClaw.Watch
