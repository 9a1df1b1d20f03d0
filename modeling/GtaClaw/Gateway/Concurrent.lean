import GtaClaw.Gateway.NoGap

/-!
# Concurrent publishers

`publish` takes its ordinal from a counter and only then locks the subscribers. Any
number of publishers can stand between the two, so a run has a step for each: one
takes an ordinal, the other fans out a publication that has one. All other calls
are single steps, as before.

If every fan-out is of the least ordinal that waits, what a ledger owes is in
ascending order, and so is what its handle receives. Nothing in the code makes it
so: a publisher that is overtaken between its two steps delivers a smaller ordinal
after a larger one, or loses it behind a gap that names the larger one.
-/

namespace GtaClaw.Gateway

open Lib List

variable {Payload χ : Type} [Channel χ (EventEnvelope Payload)]

/-- The calls other than `publish`. -/
def Op.single : Op Payload → Bool
  | .publish _ => false
  | _ => true

inductive Act (Payload : Type) where
  /-- A publisher takes the next ordinal for its draft. -/
  | takeOrdinal (draft : EventDraft Payload)
  /-- The `n`-th of the publishers that wait locks the subscribers and fans out. -/
  | fanOut (n : Nat)
  | call (op : Op Payload) (single : op.single = true)

/-- The bus with what is published and not yet fanned out, in the order of the counter. -/
structure Traffic (χ Payload : Type) where
  world : World χ
  waiting : List (EventEnvelope Payload)

variable (t : Traffic χ Payload)

def Traffic.takeOrdinal (draft : EventDraft Payload) : Answer Payload × Traffic χ Payload :=
  let bus := { t.world.bus with ordinal := t.world.bus.ordinal + 1 }
  let t := { t with world.bus := bus }
  match EventSequence.new bus.ordinal with
  | .error _ => (.published none, t)
  | .ok ordinal => (.done, { t with waiting := t.waiting ++ [{ draft with ordinal }] })

def Traffic.fanOut (n : Nat) : Answer Payload × Traffic χ Payload :=
  match t.waiting[n]? with
  | none => (.done, t)
  | some envelope => (.published (some envelope.ordinal),
      { world := { t.world with bus := t.world.bus.fanOut t.world.filters envelope }
        waiting := t.waiting.eraseIdx n })

def Traffic.step : Act Payload → Answer Payload × Traffic χ Payload
  | .takeOrdinal draft => t.takeOrdinal draft
  | .fanOut n => t.fanOut n
  | .call op _ => ((t.world.step op).1, { t with world := (t.world.step op).2 })

theorem EventSequence.new_of_ne_zero {value : UInt64} (h : value ≠ 0) :
    ∃ hpos, EventSequence.new value = .ok ⟨value, hpos⟩ := by
  have hpos : 1 ≤ value := by exact Nat.one_le_iff_ne_zero.mpr fun hz => h (UInt64.toNat_inj.mp hz)
  exact ⟨hpos, dif_pos hpos⟩

/-- Both steps of `publish`, one right after the other, are `publish`. -/
theorem publish_eq_steps (w : World χ) (draft : EventDraft Payload) (h : w.bus.ordinal + 1 ≠ 0) :
    ((Traffic.mk w []).takeOrdinal draft).2.fanOut 0 =
      ((w.step (.publish draft)).1, ⟨(w.step (.publish draft)).2, []⟩) := by
  obtain ⟨hpos, hnew⟩ := EventSequence.new_of_ne_zero h
  unfold Traffic.takeOrdinal World.step EventBus.publish
  dsimp only
  rw [hnew]
  rfl

/-- The book, when a registration ends as it leaves the bus, whoever removed it. -/
def Book.enter (book : Book Payload) : Act Payload → Book Payload
  | .takeOrdinal _ => book
  | .fanOut n => match t.waiting[n]? with
      | none => book
      | some envelope => book.map (·.publish t.world.filters envelope)
  | .call (.drop s) _ => if s ∈ t.world.held then book.map (·.finishOf s.id) else book
  | .call op _ => book.record t.world op (t.world.step op).1

def proceed (s : Traffic χ Payload × Book Payload) (a : Act Payload) :
    Answer Payload × (Traffic χ Payload × Book Payload) :=
  ((s.1.step a).1, (s.1.step a).2, s.2.enter s.1 a)

/-- The interleaved calls on a new bus: where they lead, and the book of them. -/
def concurrently (bus : EventBus χ) (filters : Nat → TopicFilter) (acts : List (Act Payload)) :
    Traffic χ Payload × Book Payload := after proceed (⟨.start bus filters, []⟩, []) acts

/-- The counter does not wrap, and a fan-out is of the least ordinal that waits. -/
def Orderly (s : Traffic χ Payload × Book Payload) : Act Payload → Prop
  | .takeOrdinal _ => s.1.world.bus.ordinal + 1 ≠ 0
  | .fanOut n => ∀ e, s.1.waiting[n]? = some e → ∀ p ∈ s.1.waiting, e.ordinal.get ≤ p.ordinal.get
  | .call _ _ => True

/-! ## What a step leaves alone -/

theorem fanOut_ordinal (bus : EventBus χ) (filters : Nat → TopicFilter)
    (e : EventEnvelope Payload) : (bus.fanOut filters e).ordinal = bus.ordinal := by
  unfold EventBus.fanOut
  dsimp only
  split
  · rfl
  · rfl

theorem step_ordinal (w : World χ) (op : Op Payload) (hop : op.single = true) :
    (w.step op).2.bus.ordinal = w.bus.ordinal := by
  cases op with
  | publish draft => cases hop
  | subscribe id role scopes filter | subscribeForDevice id role scopes filter deviceId => rfl
  | recv s | tryRecv s =>
    rw [World.step]
    split
    · show (s.receive w.bus).2.ordinal = _
      unfold EventSubscription.receive
      dsimp only
      repeat' split
      all_goals rfl
    · rfl
  | unsubscribe id | reauthorize id role scopes | setFilter filter value => rfl
  | drop s =>
    rw [World.step]
    split
    · rfl
    · rfl

/-- Nothing was added to what is owed. -/
def OwesNoMore (book book' : Book Payload) : Prop :=
  ∀ l' ∈ book', l'.owed = [] ∨ ∃ l ∈ book, l'.owed = l.owed

variable (book : Book Payload)

theorem owesNoMore_refl : OwesNoMore book book := fun l' hl' => .inr ⟨l', hl', rfl⟩

theorem owesNoMore_map {f : Ledger Payload → Ledger Payload}
    (hf : ∀ l, (f l).owed = l.owed) : OwesNoMore book (book.map f) := by
  intro l' hl'
  obtain ⟨l, hl, rfl⟩ := mem_map.mp hl'
  exact .inr ⟨l, hl, hf l⟩

/-- Only a fan-out adds to what is owed. -/
theorem owesNoMore_call (t : Traffic χ Payload) (book : Book Payload) (op : Op Payload)
    (hop : op.single = true) : OwesNoMore book (book.enter t (.call op hop)) := by
  unfold Book.enter
  cases op with
  | publish draft => cases hop
  | subscribe id role scopes filter | subscribeForDevice id role scopes filter deviceId =>
    refine forall_mem_append.mpr ⟨?_, forall_mem_singleton.mpr (.inl rfl)⟩
    exact owesNoMore_map book fun l => (l.finishOf_lists id).1
  | recv s | tryRecv s =>
    dsimp only [World.step]
    split
    · intro l' hl'
      obtain ⟨c, hc⟩ := mem_iff_getElem?.mp hl'
      obtain ⟨l, hl, rfl⟩ := Book.modify_some hc
      refine .inr ⟨l, mem_of_getElem? hl, ?_⟩
      unfold Ledger.deliver
      repeat' split
      all_goals rfl
    · exact owesNoMore_refl book
  | unsubscribe id => exact owesNoMore_map book (fun l => (l.finishOf_lists id).1)
  | drop s =>
    dsimp only
    split
    · exact owesNoMore_map book (fun l => (l.finishOf_lists s.id).1)
    · exact owesNoMore_refl book
  | reauthorize id role scopes =>
    exact owesNoMore_map book (fun l => (l.reauthorize_same id role scopes).2.2.1)
  | setFilter filter value => exact owesNoMore_refl book

/-! ## Ascending ordinals -/

/-- In the order of the counter, and none beyond it. -/
def Ascending (counter : UInt64) (es : List (EventEnvelope Payload)) : Prop :=
  (es.map (·.ordinal.get)).Pairwise (· < ·) ∧ ∀ e ∈ es, e.ordinal.get ≤ counter

variable {counter : UInt64} {es : List (EventEnvelope Payload)} {e : EventEnvelope Payload}

theorem Ascending.sublist {es' : List (EventEnvelope Payload)}
    (h : Ascending counter es) (hs : es'.Sublist es) : Ascending counter es' :=
  ⟨h.1.sublist (hs.map _), fun e he => h.2 e (hs.subset he)⟩

theorem Ascending.concat (h : Ascending counter es) (hnz : counter + 1 ≠ 0)
    (he : e.ordinal.get = counter + 1) : Ascending (counter + 1) (es ++ [e]) := by
  have hlt : counter < counter + 1 := by
    have hne : (counter + 1).toNat ≠ 0 := fun hz => hnz (UInt64.toNat_inj.mp hz)
    have := counter.toNat_lt
    change (counter.toNat + 1) % 2 ^ 64 ≠ 0 at hne
    change counter.toNat < (counter.toNat + 1) % 2 ^ 64
    omega
  constructor
  · rw [map_append, pairwise_append]
    refine ⟨h.1, pairwise_singleton _ _, ?_⟩
    intro x hx y hy
    obtain ⟨e', he', rfl⟩ := mem_map.mp hx
    rw [map_singleton, mem_singleton] at hy
    rw [hy, he]
    exact UInt64.lt_of_le_of_lt (h.2 e' he') hlt
  · refine forall_mem_append.mpr ⟨fun e' hold => ?_, forall_mem_singleton.mpr (he ▸ UInt64.le_refl _)⟩
    exact UInt64.le_of_lt (UInt64.lt_of_le_of_lt (h.2 e' hold) hlt)

/-! ## The invariant -/

variable [LawfulChannel χ (EventEnvelope Payload)]

/-- What waits comes after all that was owed before it, in order. -/
structure Ordered (s : Traffic χ Payload × Book Payload) : Prop where
  inv : Inv s.1.world.bus s.1.world.held s.2
  waiting : Ascending s.1.world.bus.ordinal s.1.waiting
  owed : ∀ l ∈ s.2, Ascending s.1.world.bus.ordinal (l.owed ++ s.1.waiting)

variable {t : Traffic χ Payload} {book : Book Payload}

theorem Ordered.takeOrdinal (h : Ordered (t, book))
    (draft : EventDraft Payload) (hnz : t.world.bus.ordinal + 1 ≠ 0) :
    Ordered ((t.takeOrdinal draft).2, book) := by
  obtain ⟨hpos, hnew⟩ := EventSequence.new_of_ne_zero hnz
  unfold Traffic.takeOrdinal
  dsimp only
  rw [hnew]
  refine ⟨h.inv.set_ordinal _, h.waiting.concat hnz rfl, fun l hl => ?_⟩
  rw [← append_assoc]
  exact (h.owed l hl).concat hnz rfl

theorem Ascending.least (h : Ascending counter es) {n : Nat} (he : es[n]? = some e)
    (hleast : ∀ p ∈ es, e.ordinal.get ≤ p.ordinal.get) : es = e :: es.eraseIdx n := by
  cases es with
  | nil => cases he
  | cons first rest =>
    cases n with
    | zero =>
      cases he
      rfl
    | succ n =>
      have hmem : e ∈ rest := mem_of_getElem? he
      have hlt := rel_of_pairwise_cons h.1 (mem_map.mpr ⟨e, hmem, rfl⟩)
      exact absurd hlt (UInt64.not_lt.mpr (hleast first mem_cons_self))

theorem Ordered.fanOut (h : Ordered (t, book)) (n : Nat) (hleast : Orderly (t, book) (.fanOut n)) :
    Ordered ((t.fanOut n).2, book.enter t (.fanOut n)) := by
  rw [Book.enter, Traffic.fanOut]
  cases he : t.waiting[n]? with
  | none => exact h
  | some e =>
    have hfirst := h.waiting.least he (hleast e he)
    refine ⟨h.inv.fanOut t.world.filters e, ?_, ?_⟩
    · rw [fanOut_ordinal]
      exact h.waiting.sublist (eraseIdx_sublist _ _)
    · intro l' hl'
      obtain ⟨l, hl, rfl⟩ := mem_map.mp hl'
      have howed := h.owed l hl
      rw [fanOut_ordinal]
      rw [hfirst] at howed
      -- what is owed after the fan-out, and what still waits, stood in this order before
      refine howed.sublist ?_
      unfold Ledger.publish
      split
      · rw [append_assoc]
        exact List.Sublist.refl _
      · exact (sublist_cons_self e _).append_left l.owed

theorem Ordered.call (h : Ordered (t, book)) (op : Op Payload) (hop : op.single = true) :
    Ordered (⟨(t.world.step op).2, t.waiting⟩, book.enter t (.call op hop)) := by
  have hinv : Inv (t.world.step op).2.bus (t.world.step op).2.held
      (book.enter t (.call op hop)) := by
    have hadvance := inv_advance h.inv op
    cases op with
    | drop s =>
      unfold Book.enter World.step
      dsimp only
      by_cases hs : s ∈ t.world.held
      · rw [if_pos hs, if_pos hs]
        have hrest := h.inv.unsubscribe s.id
        refine ⟨hrest.sound.set_link s.link _ rfl ?_, fun k hk => ?_⟩
        · rw [Link.view, LawfulChannel.view_dropReceiver]
          rfl
        · obtain ⟨hk, hne⟩ := mem_filter.mp hk
          have hlink := h.inv.link_ne hs hk (bne_iff_ne.mp hne)
          have hupdate : (s.drop t.world.bus).links k.link =
              (t.world.bus.unsubscribe s.id).links k.link := Function.update_of_ne hlink _ _
          rw [hupdate]
          exact hrest.held k hk
      · rw [if_neg hs, if_neg hs]
        exact h.inv
    | publish draft => cases hop
    | _ => exact hadvance trivial
  refine ⟨hinv, ?_, fun l' hl' => ?_⟩
  · rw [step_ordinal t.world op hop]
    exact h.waiting
  · rw [step_ordinal t.world op hop]
    rcases owesNoMore_call t book op hop l' hl' with hnone | ⟨l, hl, hsame⟩
    · rw [hnone]
      exact h.waiting
    · rw [hsame]
      exact h.owed l hl

/-- **Every orderly step keeps the order.** -/
theorem ordered_proceed (s : Traffic χ Payload × Book Payload) (a : Act Payload)
    (h : Ordered s) (hok : Orderly s a) : Ordered (proceed s a).2 := by
  cases a with
  | takeOrdinal draft => exact h.takeOrdinal draft hok
  | fanOut n => exact h.fanOut n hok
  | call op hop => exact h.call op hop

/-- What is owed before the envelope that a gap names has been delivered. -/
theorem Ledger.Justified.below {l : Ledger Payload}
    {firstMissed : EventSequence} (hl : Ascending counter l.owed)
    (h : l.Justified (some (.lagged firstMissed))) :
    ∀ e ∈ l.owed, e.ordinal.get < firstMissed.get → e ∈ l.delivered := by
  intro e he hlt
  obtain ⟨missed, rest, howed, hfirst⟩ := h
  have hasc := hl.1
  rw [howed] at he hasc
  rcases mem_append.mp he with hd | hd
  · exact hd
  exfalso
  rw [← hfirst] at hlt
  rw [map_append] at hasc
  have hrest := (pairwise_append.mp hasc).2.1
  rcases mem_cons.mp hd with rfl | hr
  · exact UInt64.lt_irrefl _ hlt
  · have hbehind := rel_of_pairwise_cons hrest (mem_map.mpr ⟨e, hr, rfl⟩)
    exact UInt64.lt_asymm hlt hbehind

/-- **Order under concurrent publishers.** Along every interleaving in which each fan-out is of the
least ordinal that waits and the counter does not wrap, a handle receives strictly increasing
ordinals; and when it lags, all that its ledger owes below the gap has been delivered, and no
publication below the gap is still to be fanned out. -/
theorem concurrent_deliveries_ordered (queueCapacity queueBytes : UInt64) (bus : EventBus χ)
    (hnew : EventBus.new queueCapacity queueBytes = some bus) (filters : Nat → TopicFilter)
    (acts : List (Act Payload))
    (hok : Along proceed Orderly (⟨World.start bus filters, []⟩, []) acts)
    (s : EventSubscription) (hs : s ∈ (concurrently bus filters acts).1.world.held) :
    ∃ l, (concurrently bus filters acts).2[s.link]? = some l ∧ l.id = s.id
      ∧ (l.delivered.map (·.ordinal.get)).Pairwise (· < ·)
      ∧ ∀ firstMissed, ((s.recv (concurrently bus filters acts).1.world.bus).1
            = some (.lagged firstMissed)
          ∨ (s.tryRecv (concurrently bus filters acts).1.world.bus).1
            = some (.lagged firstMissed)) →
        (∀ e ∈ l.owed, e.ordinal.get < firstMissed.get → e ∈ l.delivered)
        ∧ ∀ p ∈ (concurrently bus filters acts).1.waiting, firstMissed.get < p.ordinal.get := by
  have h : Ordered (concurrently bus filters acts) :=
    after_inv ordered_proceed acts _ ⟨inv_new hnew, ⟨.nil, nofun⟩, nofun⟩ hok
  obtain ⟨l, hl, hid, hacc⟩ := h.inv.held s hs
  have hasc := h.owed l (mem_of_getElem? hl)
  have howed : Ascending _ l.owed := hasc.sublist (sublist_append_left _ _)
  have hdelivered : l.delivered.Sublist l.owed :=
    (sublist_append_left _ _).trans hacc.fulfils.sublist
  refine ⟨l, hl, hid, howed.1.sublist (hdelivered.map _), ?_⟩
  intro firstMissed hlag
  have hjust : l.Justified (some (.lagged firstMissed)) := by
    have hnext := (hacc.receive h.inv.sound hl).1
    rw [show (s.receive _).1 = _ from hlag.elim id id] at hnext
    exact hnext
  refine ⟨hjust.below howed, fun p hp => ?_⟩
  obtain ⟨missed, rest, hsplit, hfirst⟩ := hjust
  have hmissed : missed ∈ l.owed := by
    rw [hsplit]
    exact mem_append_right _ mem_cons_self
  have hpair := hasc.1
  rw [map_append, pairwise_append] at hpair
  rw [← hfirst]
  exact hpair.2.2 _ (mem_map.mpr ⟨missed, hmissed, rfl⟩) _ (mem_map.mpr ⟨p, hp, rfl⟩)

section Concrete

/-- Two publishers in turn on a queue of one; the second publication does not fit. -/
def inTurn : List (Act Unit) :=
  [.call (.subscribe ⟨7⟩ .operator [] 0) rfl, .takeOrdinal tick, .takeOrdinal tick, .fanOut 0,
    .fanOut 0, .call (.recv ⟨⟨7⟩, 0⟩) rfl]

theorem concurrent_deliveries_ordered_inTurn :
    ((⟨⟨7⟩, 0⟩ : EventSubscription).recv (concurrently tinyBus (fun _ => {}) inTurn).1.world.bus).1
        = some (.lagged ⟨2, by decide⟩)
      ∧ ∃ l, (concurrently tinyBus (fun _ => {}) inTurn).2[0]? = some l
        ∧ (l.delivered.map (·.ordinal.get)).Pairwise (· < ·)
        ∧ ∀ e ∈ l.owed, e.ordinal.get < 2 → e ∈ l.delivered := by
  have hnew : EventBus.new 1 100 = some tinyBus := by
    rw [EventBus.new, if_pos (by decide)]
    rfl
  have hok : Along proceed Orderly (⟨World.start tinyBus fun _ => {}, []⟩, []) inTurn := by
    refine ⟨trivial, ?_, ?_, ?_, ?_, trivial, trivial⟩
    · rw [Orderly]
      decide +kernel
    · rw [Orderly]
      decide +kernel
    · intro e he p hp
      cases he
      revert p
      decide +kernel
    · intro e he p hp
      cases he
      revert p
      decide +kernel
  have hs : (⟨⟨7⟩, 0⟩ : EventSubscription)
      ∈ (concurrently tinyBus (fun _ => {}) inTurn).1.world.held := by
    decide +kernel
  have hlag : ((⟨⟨7⟩, 0⟩ : EventSubscription).recv
      (concurrently tinyBus (fun _ => {}) inTurn).1.world.bus).1
        = some (.lagged ⟨2, by decide⟩) := by
    decide +kernel
  obtain ⟨l, hl, -, hasc, hgap⟩ :=
    concurrent_deliveries_ordered 1 100 tinyBus hnew _ inTurn hok _ hs
  exact ⟨hlag, l, hl, hasc, (hgap _ (.inl hlag)).1⟩

/-- The second publisher overtakes the first. -/
def overtaken : List (Act Unit) :=
  [.call (.subscribe ⟨7⟩ .operator [] 0) rfl, .takeOrdinal tick, .takeOrdinal tick, .fanOut 1,
    .call (.recv ⟨⟨7⟩, 0⟩) rfl, .fanOut 0, .call (.recv ⟨⟨7⟩, 0⟩) rfl]

/-- Two publishers overtake the first, and one of them does not fit. -/
def overtakenTwice : List (Act Unit) :=
  [.call (.subscribe ⟨7⟩ .operator [] 0) rfl, .takeOrdinal tick, .takeOrdinal tick,
    .takeOrdinal tick, .fanOut 1, .fanOut 1, .fanOut 0, .call (.recv ⟨⟨7⟩, 0⟩) rfl]

/-- Ordinal 1 is delivered after ordinal 2; or it is lost, and the gap says 3. -/
theorem overtaken_publication_out_of_order :
    ((concurrently tinyBus (fun _ => {}) overtaken).2[0]?).map
        (fun l => l.delivered.map (·.ordinal.get)) = some [2, 1]
      ∧ ((⟨⟨7⟩, 0⟩ : EventSubscription).recv
          (concurrently tinyBus (fun _ => {}) overtakenTwice).1.world.bus).1
        = some (.lagged ⟨3, by decide⟩)
      ∧ ((concurrently tinyBus (fun _ => {}) overtakenTwice).2[0]?).map
          (fun l => (l.owed.map (·.ordinal.get), l.delivered.map (·.ordinal.get)))
        = some ([2, 3, 1], [2]) :=
  ⟨by decide +kernel, by decide +kernel, by decide +kernel⟩

end Concrete

end GtaClaw.Gateway
