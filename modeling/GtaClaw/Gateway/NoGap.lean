import GtaClaw.Gateway.Registry

/-!
# No silent gap

Along every run in which no handle is dropped while its connection is registered
through another one, the bus gives each handle what its ledger says. The
invariant is `Inv`: the registry is sound for the book, and every handle that is
held accounts for its ledger. One lemma per call shows that the call keeps it; a
delivery is then read off the invariant.

The proviso is needed. A handle that was replaced, or has lagged, still removes
the registration of its connection when it is dropped, and by then that
registration can be another handle's.
-/

namespace GtaClaw.Gateway

open Lib Book List

variable {Payload χ : Type} [Channel χ (EventEnvelope Payload)]

variable [LawfulChannel χ (EventEnvelope Payload)]

/-- The registry is sound, and every held handle accounts for its ledger. -/
structure Inv (bus : EventBus χ) (held : List EventSubscription) (book : Book Payload) : Prop where
  sound : Sound bus book
  held : ∀ h ∈ held, ∃ l, book[h.link]? = some l ∧ l.id = h.id
    ∧ Accounts (bus.links h.link) l

section Steps

variable {bus : EventBus χ} {held : List EventSubscription} {book : Book Payload}

/-! ## Registering and removing -/

section

variable (h : Inv bus held book)
include h

theorem Inv.unsubscribe (id : ConnectionId) :
    Inv (bus.unsubscribe id) held (book.map (·.finishOf id)) := by
  refine ⟨h.sound.retain (length_map _) rfl rfl (fun _ => rfl) ?_, ?_⟩
  · intro c l' hl'
    obtain ⟨l, hl, rfl⟩ := map_some hl'
    rw [l.finishOf_ended, and_assoc, h.sound.live c l hl]
    -- the subscriber at `c` is of the connection its ledger names
    refine ⟨l, hl, l.finishOf_registration id, ?_, ?_⟩
    · intro hboth
      rcases hboth with ⟨hid, s, hs, rfl⟩
      refine ⟨s, hs, rfl, bne_iff_ne.mpr ?_⟩
      rw [← h.sound.owner_id hs hl]
      exact hid
    · intro hex
      rcases hex with ⟨s, hs, rfl, hk⟩
      refine ⟨?_, s, hs, rfl⟩
      rw [h.sound.owner_id hs hl]
      exact bne_iff_ne.mp hk
  · intro k hk
    obtain ⟨l, hl, hid, hacc⟩ := h.held k hk
    refine ⟨_, map_get _ hl, ?_, ?_⟩
    · rw [congrArg Registration.id (l.finishOf_registration id)]
      exact hid
    · exact (hacc.retain _ h.sound.nodup_links).congr rfl rfl (l.finishOf_lists id).1
        (l.finishOf_lists id).2

theorem Inv.register (r : Registration) (hnew : ∀ s ∈ bus.subscribers, s.id ≠ r.id) :
    Inv (bus.register r) (⟨r.id, bus.created⟩ :: held) (book ++ [.start r]) := by
  refine ⟨h.sound.register r hnew, fun k hk => ?_⟩
  rcases mem_cons.mp hk with rfl | hk
  · rw [h.sound.created]
    refine ⟨.start r, getElem?_concat_length, rfl, ?_, ?_⟩
    · intro _
      rw [register_view h.sound r]
      rfl
    · intro hne
      rw [register_link h.sound r] at hne
      exact absurd rfl hne
  · obtain ⟨l, hl, hid, hacc⟩ := h.held k hk
    have hlt := (List.getElem?_eq_some_iff.mp hl).1
    refine ⟨l, concat_get _ hl, hid, ?_⟩
    rw [register_links_of_ne h.sound r (by omega)]
    exact hacc

/-- **Registering** replaces the connection's registration by a new one. -/
theorem Inv.subscribeBound (id : ConnectionId) (role : Role)
    (scopes : List OperatorScope) (filter : Nat) (deviceId : Option String) :
    Inv (bus.subscribeBound id role scopes filter deviceId).2
      ((bus.subscribeBound id role scopes filter deviceId).1 :: held)
      (book.map (·.finishOf id) ++ [.start ⟨id, deviceId, role, scopes, filter⟩]) := by
  rw [subscribeBound_eq h.sound]
  refine (h.unsubscribe id).register ⟨id, deviceId, role, scopes, filter⟩ ?_
  intro s hs
  exact bne_iff_ne.mp (mem_filter.mp hs).2

/-! ## Publishing -/

theorem Inv.offerAll (filters : Nat → TopicFilter)
    (e : EventEnvelope Payload) {k : EventSubscription} {l : Ledger Payload}
    (hl : book[k.link]? = some l) (hacc : Accounts (bus.links k.link) l) :
    Accounts ((bus.offerAll filters e).links k.link) (l.publish filters e) := by
  by_cases hc : ∃ s ∈ bus.subscribers, s.link = k.link
  · -- registered: the envelope is owed exactly if it is offered
    obtain ⟨s, hs, hsl⟩ := hc
    rw [← hsl] at hl hacc ⊢
    obtain ⟨hend, hzero⟩ := (h.sound.live s.link l hl).mpr ⟨s, hs, rfl⟩
    rw [offerAll_registered h.sound filters e hs, offered, ← h.sound.owner hs hl, Ledger.publish]
    cases hadm : l.admits filters e with
    | false =>
      rw [if_neg Bool.false_ne_true, if_neg (fun hf => Bool.false_ne_true hf.2)]
      exact hacc
    | true =>
      rw [if_pos rfl, if_pos ⟨hend, rfl⟩]
      exact hacc.offer hzero _ e
  · -- not registered: nothing more is owed, or there is a gap already
    rw [offerAll_other filters e hc, Ledger.publish]
    split_ifs with howed
    · refine hacc.owe ?_ e
      intro hzero
      exact hc ((h.sound.live k.link l hl).mp ⟨howed.1, hzero⟩)
    · exact hacc

/-- **Fan-out** owes the envelope to whom it admits, and removes whom it could not reach. -/
theorem Inv.fanOut (filters : Nat → TopicFilter) (e : EventEnvelope Payload) :
    Inv (bus.fanOut filters e) held (book.map (·.publish filters e)) := by
  rw [fanOut_eq h.sound]
  refine ⟨h.sound.retain (length_map _) rfl rfl (offerAll_sending h.sound filters e) ?_, ?_⟩
  · intro c l' hl'
    obtain ⟨l, hl, rfl⟩ := map_some hl'
    rw [(l.publish_registration filters e).2]
    refine ⟨l, hl, (l.publish_registration filters e).1, ?_, ?_⟩
    · intro hboth
      rcases hboth with ⟨hend, hzero⟩
      by_cases hc : ∃ s ∈ bus.subscribers, s.link = c
      · obtain ⟨s, hs, rfl⟩ := hc
        exact ⟨s, hs, rfl, (offerAll_gap h.sound filters e hs).mpr hzero⟩
      · rw [offerAll_other filters e hc] at hzero
        exact absurd ((h.sound.live c l hl).mp ⟨hend, hzero⟩) hc
    · intro hex
      rcases hex with ⟨s, hs, rfl, hk⟩
      exact ⟨((h.sound.live s.link l hl).mpr ⟨s, hs, rfl⟩).1,
        (offerAll_gap h.sound filters e hs).mp hk⟩
  · intro k hk
    obtain ⟨l, hl, hid, hacc⟩ := h.held k hk
    refine ⟨_, map_get _ hl, ?_, ?_⟩
    · rw [congrArg Registration.id (l.publish_registration filters e).1]
      exact hid
    · exact (h.offerAll filters e hl hacc).retain _ h.sound.nodup_links

theorem Inv.set_ordinal (ordinal : UInt64) : Inv { bus with ordinal } held book :=
  ⟨⟨h.sound.created, h.sound.ids, h.sound.owners, h.sound.live, h.sound.sending⟩, h.held⟩

end

/-! ## Receiving -/

/-- Whatever a receive does, it does at its own link. -/
theorem receive_cases (s : EventSubscription) (bus : EventBus χ) :
    ∃ link, (s.receive bus).2 = { bus with links := Function.update bus.links s.link link }
      ∧ link.lag.firstMissed = (bus.links s.link).lag.firstMissed
      ∧ link.view.sending = (bus.links s.link).view.sending
      ∧ ((∃ e rest, (s.receive bus).1 = some (.event e)
            ∧ (bus.links s.link).view.contents = e :: rest ∧ link.view.contents = rest)
        ∨ ((bus.links s.link).view.contents = [] ∧ link.view.contents = []
          ∧ (((bus.links s.link).view.sending = true ∧ (s.receive bus).1 = none)
            ∨ ((bus.links s.link).view.sending = false
              ∧ (s.receive bus).1 = some (bus.links s.link).lag.terminalDelivery)))) := by
  have hfst := LawfulChannel.recv_fst (bus.links s.link).channel
  have hsnd := LawfulChannel.view_recv (bus.links s.link).channel
  unfold EventSubscription.receive
  dsimp only
  -- the answer and the view of the channel behind it, by the three cases of the queue
  have hq := Queue.recv_cases (bus.links s.link).view
  rw [Link.view] at hq ⊢
  rcases hq with ⟨e, rest, hc, hq⟩ | ⟨hc, hs, hq⟩ | ⟨hc, hs, hq⟩
  · rw [hq] at hfst hsnd
    rw [hfst]
    refine ⟨_, rfl, rfl, ?_, .inl ⟨e, rest, rfl, hc, ?_⟩⟩
    · rw [Link.view, hsnd]
    · rw [Link.view, hsnd]
  · rw [hq] at hfst hsnd
    rw [hfst]
    refine ⟨_, rfl, rfl, ?_, .inr ⟨hc, ?_, .inl ⟨hs, rfl⟩⟩⟩
    · rw [Link.view, hsnd]
    · rw [Link.view, hsnd, hc]
  · rw [hq] at hfst hsnd
    rw [hfst]
    refine ⟨_, rfl, rfl, ?_, .inr ⟨hc, ?_, .inr ⟨hs, rfl⟩⟩⟩
    · rw [Link.view, hsnd]
    · rw [Link.view, hsnd, hc]

/-- **A delivery is what the ledger says**, and entering it keeps the account. -/
theorem Accounts.receive {s : EventSubscription} {l : Ledger Payload}
    (h : Accounts (bus.links s.link) l) (hsound : Sound bus book) (hl : book[s.link]? = some l) :
    l.Justified (s.receive bus).1
      ∧ Accounts ((s.receive bus).2.links s.link) (l.deliver (s.receive bus).1) := by
  obtain ⟨link, hbus, hlag, -, hcases⟩ := receive_cases s bus
  have hlink : (s.receive bus).2.links s.link = link := by
    rw [hbus]
    exact Function.update_self _ _ _
  rw [hlink]
  have hlive := hsound.live s.link l hl
  have hsending := hsound.sending s.link l hl
  rcases hcases with ⟨e, rest, hd, hc, hr⟩ | ⟨hc, hr, ⟨hs, hd⟩ | ⟨hs, hd⟩⟩
  · -- the first in line is the first that is owed
    rw [hd]
    constructor
    · obtain ⟨more, howed⟩ := h.fulfils
      rw [hc, append_assoc] at howed
      exact ⟨rest ++ more, howed.symm⟩
    · have hmove : (l.delivered ++ [e]) ++ link.view.contents
          = l.delivered ++ (bus.links s.link).view.contents := by
        rw [hc, hr, append_assoc]
        rfl
      constructor
      · intro hm
        exact hmove.trans (h.complete (hlag ▸ hm))
      · intro hm
        rw [hlag] at hm ⊢
        obtain ⟨first, more, howed, hf⟩ := h.gap hm
        refine ⟨first, more, ?_, hf⟩
        rw [← hmove] at howed
        exact howed
  · -- nothing queued, and still registered
    rw [hd]
    obtain ⟨hend, hzero⟩ := hlive.mpr (hsending.mp hs)
    have howed := h.complete hzero
    rw [hc, append_nil] at howed
    exact ⟨⟨hend, howed⟩, h.congr (hr.trans hc.symm) hlag rfl rfl⟩
  · -- nothing queued, and no longer registered
    rw [hd]
    have hgone : ¬ (l.ended = false ∧ (bus.links s.link).lag.firstMissed = 0) := by
      intro hboth
      rw [hsending.mpr (hlive.mp hboth)] at hs
      cases hs
    by_cases hm : (bus.links s.link).lag.firstMissed = 0
    · have howed := h.complete hm
      rw [hc, append_nil] at howed
      have hend : l.ended = true := by
        rw [← Bool.not_eq_false]
        exact fun he => hgone ⟨he, hm⟩
      rw [LagState.terminalDelivery, hm]
      exact ⟨⟨hend, howed⟩, h.congr (hr.trans hc.symm) hlag rfl rfl⟩
    · obtain ⟨first, more, howed, hf⟩ := h.gap hm
      rw [hc, append_nil] at howed
      rw [LagState.terminalDelivery, ← hf, EventSequence.new, dif_pos first.ordinal.positive]
      exact ⟨⟨first, more, howed, rfl⟩, h.congr (hr.trans hc.symm) hlag rfl rfl⟩

section

variable (h : Inv bus held book)
include h

theorem Inv.receive (s : EventSubscription) :
    Inv (s.receive bus).2 held (book.modify s.link (·.deliver (s.receive bus).1)) := by
  obtain ⟨link, hbus, hlag, hsend, -⟩ := receive_cases s bus
  have hsound : Sound (s.receive bus).2 book := by
    rw [hbus]
    exact h.sound.set_link s.link link hlag hsend
  refine ⟨hsound.set_book (length_modify _ _ _) ?_, ?_⟩
  · intro c l' hl'
    obtain ⟨l, hl, rfl⟩ := modify_some hl'
    refine ⟨l, hl, ?_⟩
    split
    · exact l.deliver_registration _
    · exact ⟨rfl, rfl⟩
  · intro k hk
    obtain ⟨l, hl, hid, hacc⟩ := h.held k hk
    refine ⟨_, modify_get _ _ hl, ?_⟩
    split_ifs with hc
    · rw [← hc] at hl hacc ⊢
      refine ⟨?_, (hacc.receive h.sound hl).2⟩
      rw [congrArg Registration.id (l.deliver_registration _).1]
      exact hid
    · rw [hbus]
      dsimp only
      rw [Function.update_of_ne (fun he => hc he.symm)]
      exact ⟨hid, hacc⟩

/-! ## Dropping a handle -/

theorem Inv.link_ne {s k : EventSubscription} (hs : s ∈ held)
    (hk : k ∈ held) (hne : k ≠ s) : k.link ≠ s.link := by
  intro he
  obtain ⟨l, hl, hid, -⟩ := h.held s hs
  obtain ⟨l', hl', hid', -⟩ := h.held k hk
  rw [he, hl, Option.some.injEq] at hl'
  have hids : k.id = s.id := by rw [← hid, ← hid', hl']
  cases k
  cases s
  cases hids
  cases he
  exact hne rfl

/-- **A drop that removes no other registration** ends its own. -/
theorem Inv.drop {s : EventSubscription} (hs : s ∈ held)
    (hkeeps : ∀ r ∈ bus.subscribers, r.id = s.id → r.link = s.link) :
    Inv (s.drop bus) (held.filter (· != s)) (book.modify s.link (·.finish)) := by
  -- the subscriber at the handle's address is of the handle's connection, and the only one
  have honly : ∀ r ∈ bus.subscribers, r.id = s.id ↔ r.link = s.link := by
    intro r hr
    refine ⟨hkeeps r hr, fun hlink => ?_⟩
    obtain ⟨l, hl, hid, -⟩ := h.held s hs
    rw [← hlink] at hl
    rw [← hid]
    exact (h.sound.owner_id hr hl).symm
  refine ⟨(h.sound.unsubscribe_only honly).set_link s.link _ rfl ?_, ?_⟩
  · rw [Link.view, LawfulChannel.view_dropReceiver]
    rfl
  · intro k hk
    obtain ⟨hk, hne⟩ := mem_filter.mp hk
    have hlink := h.link_ne hs hk (bne_iff_ne.mp hne)
    obtain ⟨l, hl, hid, hacc⟩ := h.held k hk
    refine ⟨_, modify_get _ _ hl, ?_⟩
    rw [if_neg hlink.symm]
    refine ⟨hid, ?_⟩
    have hupdate : (s.drop bus).links k.link = (bus.unsubscribe s.id).links k.link :=
      Function.update_of_ne hlink _ _
    rw [hupdate]
    exact hacc.retain _ h.sound.nodup_links

/-! ## Changing an authorization -/

theorem Inv.reauthorize (id : ConnectionId) (role : Role) (scopes : List OperatorScope) :
    Inv (bus.reauthorize id role scopes).2 held (book.map (·.reauthorize id role scopes)) := by
  refine ⟨h.sound.reauthorize id role scopes, fun k hk => ?_⟩
  obtain ⟨l, hl, hid, hacc⟩ := h.held k hk
  obtain ⟨hli, -, howed, hdel⟩ := l.reauthorize_same id role scopes
  exact ⟨_, map_get _ hl, hli.trans hid, hacc.congr rfl rfl howed hdel⟩

end

end Steps

/-! ## Runs -/

theorem inv_new {queueCapacity queueBytes : UInt64} {bus : EventBus χ}
    (h : EventBus.new queueCapacity queueBytes = some bus) : Inv bus [] ([] : Book Payload) := by
  rw [EventBus.new] at h
  split at h
  · cases h
    exact ⟨⟨rfl, nodup_nil, nofun, nofun, nofun⟩, nofun⟩
  · cases h

/-- **Every call keeps the invariant.** -/
theorem inv_advance {w : World χ} {book : Book Payload} (h : Inv w.bus w.held book)
    (op : Op Payload) (hk : w.KeepsOthers op) :
    Inv (advance (w, book) op).1.bus (advance (w, book) op).1.held (advance (w, book) op).2 := by
  cases op with
  | subscribe id role scopes filter => exact h.subscribeBound id role scopes filter none
  | subscribeForDevice id role scopes filter deviceId =>
    exact h.subscribeBound id role scopes filter _
  | publish draft =>
    have hcount := h.set_ordinal (w.bus.ordinal + 1)
    unfold advance World.step EventBus.publish
    dsimp only
    cases EventSequence.new (w.bus.ordinal + 1) with
    | error message => exact hcount
    | ok ordinal => exact hcount.fanOut w.filters { draft with ordinal }
  | recv s | tryRecv s =>
    unfold advance World.step
    dsimp only
    by_cases hs : s ∈ w.held
    · rw [if_pos hs]
      exact h.receive s
    · rw [if_neg hs]
      exact h
  | unsubscribe id => exact h.unsubscribe id
  | drop s =>
    unfold advance World.step record
    dsimp only
    by_cases hs : s ∈ w.held
    · rw [if_pos hs, if_pos hs]
      exact h.drop hs (hk hs)
    · rw [if_neg hs, if_neg hs]
      exact h
  | reauthorize id role scopes => exact h.reauthorize id role scopes
  | setFilter filter value => exact h

theorem inv_advanceAll : ∀ (ops : List (Op Payload)) (s : World χ × Book Payload),
    Inv s.1.bus s.1.held s.2 → s.1.KeepsOthersAll ops →
      Inv (advanceAll s ops).1.bus (advanceAll s ops).1.held (advanceAll s ops).2
  | [], _, h, _ => h
  | op :: ops, _, h, hk => inv_advanceAll ops _ (inv_advance h op hk.1) hk.2

/-- **No silent gap.** Along every run in which no drop removes another registration, each held
subscription has been given and has queued all that its ledger owes it, in order, up to the
publication its gap names; and what it receives next is the next it is owed, the ordinal of the
first publication it missed, or `closed` if its registration has ended. -/
theorem deliveries_justified (queueCapacity queueBytes : UInt64) (bus : EventBus χ)
    (hnew : EventBus.new queueCapacity queueBytes = some bus) (filters : Nat → TopicFilter)
    (ops : List (Op Payload)) (hk : (World.start bus filters).KeepsOthersAll ops)
    (s : EventSubscription) (hs : s ∈ (runOf bus filters ops).1.held) :
    ∃ l, (runOf bus filters ops).2[s.link]? = some l ∧ l.id = s.id
      ∧ Accounts ((runOf bus filters ops).1.bus.links s.link) l
      ∧ l.Justified (s.recv (runOf bus filters ops).1.bus).1
      ∧ l.Justified (s.tryRecv (runOf bus filters ops).1.bus).1 := by
  have hinv := inv_advanceAll ops (World.start bus filters, []) (inv_new hnew) hk
  obtain ⟨l, hl, hid, hacc⟩ := hinv.held s hs
  have hnext := (hacc.receive hinv.sound hl).1
  exact ⟨l, hl, hid, hacc, hnext, hnext⟩

section Concrete

/-- A bus whose queues hold one event. -/
def tinyBus : EventBus (Queue (EventEnvelope Unit)) :=
  ⟨0, [], 1, 100, fun _ => ⟨Queue.channel 0, ⟨0, 0⟩⟩, 0⟩

def tick : EventDraft Unit := ⟨"tick", (), 2, .broadcast, none, .allAuthenticated, none⟩

/-- Two connections; the second leaves, the first receives one of two events. -/
def laggingRun : List (Op Unit) :=
  [.subscribe ⟨7⟩ .operator [] 0, .subscribe ⟨8⟩ .node [] 0, .drop ⟨⟨8⟩, 1⟩, .publish tick,
    .publish tick, .recv ⟨⟨7⟩, 0⟩]

/-- The second event did not fit, and its ordinal is what comes next. -/
theorem deliveries_justified_lagging :
    ((⟨⟨7⟩, 0⟩ : EventSubscription).tryRecv (runOf tinyBus (fun _ => {}) laggingRun).1.bus).1
        = some (.lagged ⟨2, by decide⟩)
      ∧ ∃ l, (runOf tinyBus (fun _ => {}) laggingRun).2[0]? = some l
        ∧ Accounts ((runOf tinyBus (fun _ => {}) laggingRun).1.bus.links 0) l
        ∧ l.Justified (some (.lagged ⟨2, by decide⟩)) := by
  have hnew : EventBus.new 1 100 = some tinyBus := by
    rw [EventBus.new, if_pos (by decide)]
    rfl
  have hk : (World.start tinyBus fun _ => {}).KeepsOthersAll laggingRun := by
    refine ⟨trivial, trivial, ?_, trivial, trivial, trivial, trivial⟩
    rw [World.KeepsOthers]
    decide +kernel
  have hs : (⟨⟨7⟩, 0⟩ : EventSubscription) ∈ (runOf tinyBus (fun _ => {}) laggingRun).1.held := by
    decide +kernel
  have hnext : ((⟨⟨7⟩, 0⟩ : EventSubscription).tryRecv
      (runOf tinyBus (fun _ => {}) laggingRun).1.bus).1 = some (.lagged ⟨2, by decide⟩) := by
    decide +kernel
  obtain ⟨l, hl, -, hacc, -, hjust⟩ := deliveries_justified 1 100 tinyBus hnew _ laggingRun hk _ hs
  rw [hnext] at hjust
  exact ⟨hnext, l, hl, hacc, hjust⟩

/-- A connection registers twice, drops the replaced handle, and an event is published. -/
def replacedRun : List (Op Unit) :=
  [.subscribe ⟨7⟩ .operator [] 0, .subscribe ⟨7⟩ .operator [] 0, .drop ⟨⟨7⟩, 0⟩, .publish tick]

/-- The new handle is closed and never sees the event it is owed. -/
theorem drop_closes_newer_registration :
    (⟨⟨7⟩, 1⟩ : EventSubscription) ∈ (runOf tinyBus (fun _ => {}) replacedRun).1.held
      ∧ ((⟨⟨7⟩, 1⟩ : EventSubscription).tryRecv (runOf tinyBus (fun _ => {}) replacedRun).1.bus).1
        = some .closed
      ∧ ((runOf tinyBus (fun _ => {}) replacedRun).2[1]?).map
          (fun l => (l.ended, l.delivered.length, l.owed.length)) = some (false, 0, 1) :=
  ⟨by decide +kernel, by decide +kernel, by decide +kernel⟩

end Concrete

end GtaClaw.Gateway
