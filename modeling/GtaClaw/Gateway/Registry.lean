import GtaClaw.Gateway.Ledger
import GtaClaw.Lib.Run

/-!
# The registry and the book agree

`Sound` relates the registry to the book: a subscriber is registered exactly for
the ledgers that have not ended and have not missed anything, and exactly those
have a channel that is still open for sending. `Accounts` relates one channel to
one ledger: what was delivered and what is queued together are what is owed, up to
the first gap.

Most calls remove subscribers, so there is one rule for that (`Sound.retain`):
it suffices that the subscribers that stay are the ones whose ledger says so. The
fan-out loop is described once, by what it does at each address (`foldl_offerTo`).
-/

namespace GtaClaw.Gateway

open Lib LawfulChannel EventBus Book List Function

variable {Payload χ : Type} [Channel χ (EventEnvelope Payload)]

section Fanout

variable (queueBytes : UInt64) (filters : Nat → TopicFilter) (e : EventEnvelope Payload)

/-- The fan-out loop finds no room for the envelope at the subscriber's link. -/
def misses (links : Nat → Link χ) (s : Subscriber) : Bool :=
  s.admits filters e && ((links s.link).offer queueBytes e).2

/-- What the fan-out loop does at the link of one subscriber. -/
def offered (s : Subscriber) (link : Link χ) : Link χ :=
  if s.admits filters e then (link.offer queueBytes e).1 else link

theorem offerTo_eq (links : Nat → Link χ) (lagged : List ConnectionId) (s : Subscriber) :
    offerTo queueBytes filters e (links, lagged) s
      = (update links s.link (offered queueBytes filters e s (links s.link)),
        lagged ++ if misses queueBytes filters e links s then [s.id] else []) := by
  unfold offerTo misses offered
  cases s.admits filters e with
  | false => simp
  | true =>
    cases (links s.link).offer queueBytes e with
    | mk link missed =>
      cases missed with
      | false | true => simp

/-- **The fan-out loop, address by address**, and who missed the envelope. -/
theorem foldl_offerTo : ∀ (subscribers : List Subscriber) (links : Nat → Link χ)
    (lagged : List ConnectionId), (subscribers.map (·.link)).Nodup →
    subscribers.foldl (offerTo queueBytes filters e) (links, lagged)
      = (updateEach (·.link) (offered queueBytes filters e) links subscribers,
        lagged ++ (subscribers.filter (misses queueBytes filters e links)).map (·.id)) := by
  intro subscribers
  induction subscribers with
  | nil =>
    intro links lagged _
    rw [filter_nil, map_nil, append_nil]
    rfl
  | cons s subscribers ih =>
    intro links lagged hnd
    rw [map_cons, nodup_cons] at hnd
    -- the links of the later subscribers are still what they were
    have hsame : subscribers.filter (misses queueBytes filters e
          (update links s.link (offered queueBytes filters e s (links s.link))))
        = subscribers.filter (misses queueBytes filters e links) := by
      refine filter_congr fun t ht => ?_
      have hne : t.link ≠ s.link := by
        intro he
        exact hnd.1 (he ▸ mem_map_of_mem ht)
      rw [misses, misses, update_of_ne hne]
    rw [foldl_cons, offerTo_eq, ih _ _ hnd.2, hsame, updateEach_cons, filter_cons,
      append_assoc]
    cases misses queueBytes filters e links s with
    | true | false => rfl

end Fanout

theorem retain_links {bus : EventBus χ} (keep : Subscriber → Bool)
    (hnd : (bus.subscribers.map (·.link)).Nodup) (c : Nat) :
    ((∃ s ∈ bus.subscribers, s.link = c ∧ keep s = false)
        ∧ (bus.retain keep).links c
          = { bus.links c with channel := Channel.dropSender (bus.links c).channel })
      ∨ ((∀ s ∈ bus.subscribers, s.link = c → keep s = true)
        ∧ (bus.retain keep).links c = bus.links c) := by
  unfold retain
  dsimp only
  by_cases h : ∃ s ∈ bus.subscribers, s.link = c ∧ keep s = false
  · obtain ⟨s, hs, rfl, hk⟩ := h
    have hgone : s ∈ bus.subscribers.filter (!keep ·) := mem_filter.mpr ⟨hs, by rw [hk]; rfl⟩
    rw [updateEach_of_mem (·.link) _ _ ((filter_sublist.map _).nodup hnd) hgone]
    exact .inl ⟨⟨s, hs, rfl, hk⟩, rfl⟩
  · have hkeep : ∀ s ∈ bus.subscribers, s.link = c → keep s = true := by
      intro s hs hc
      rw [← Bool.not_eq_false]
      exact fun hk => h ⟨s, hs, hc, hk⟩
    rw [updateEach_of_notMem]
    · exact .inr ⟨hkeep, rfl⟩
    · intro s hs hc
      obtain ⟨hs, hk⟩ := mem_filter.mp hs
      rw [hkeep s hs hc] at hk
      cases hk

variable [LawfulChannel χ (EventEnvelope Payload)] {l : Ledger Payload}

/-! ## One link and one ledger -/

/-- The queue between the two ends. -/
def Link.view (link : Link χ) : Queue (EventEnvelope Payload) := LawfulChannel.view link.channel

/-- **An offer is enqueued or recorded as missed.** -/
theorem Link.offer_cases (queueBytes : UInt64) (link : Link χ) (e : EventEnvelope Payload) :
    ((link.offer queueBytes e).2 = false
        ∧ (link.offer queueBytes e).1.view = { link.view with contents := link.view.contents ++ [e] }
        ∧ (link.offer queueBytes e).1.lag.firstMissed = link.lag.firstMissed)
      ∨ ((link.offer queueBytes e).2 = true ∧ (link.offer queueBytes e).1.view = link.view
        ∧ (link.offer queueBytes e).1.lag.firstMissed
          = if link.lag.firstMissed = 0 then e.ordinal.get else link.lag.firstMissed) := by
  unfold Link.offer
  dsimp only
  split
  · exact .inr ⟨rfl, rfl, rfl⟩
  have hfst := LawfulChannel.trySend_fst link.channel e
  have hsnd := LawfulChannel.view_trySend link.channel e
  rcases Queue.trySend_cases (LawfulChannel.view link.channel) e with hq | hq
  · rw [hq] at hfst hsnd
    rw [if_pos hfst]
    exact .inl ⟨rfl, hsnd, rfl⟩
  rw [hq] at hfst hsnd
  rw [if_neg (by rw [hfst]; exact Bool.false_ne_true)]
  exact .inr ⟨rfl, hsnd, rfl⟩

/-- What was delivered and what is queued is all that is owed, up to the first gap. -/
structure Accounts (link : Link χ) (l : Ledger Payload) : Prop where
  complete : link.lag.firstMissed = 0 → l.delivered ++ link.view.contents = l.owed
  gap : link.lag.firstMissed ≠ 0 → ∃ e rest,
    l.owed = l.delivered ++ link.view.contents ++ e :: rest ∧ e.ordinal.get = link.lag.firstMissed

theorem Accounts.fulfils {link : Link χ} (h : Accounts link l) :
    l.delivered ++ link.view.contents <+: l.owed := by
  by_cases hm : link.lag.firstMissed = 0
  · rw [h.complete hm]
  · obtain ⟨first, rest, howed, -⟩ := h.gap hm
    exact ⟨first :: rest, howed.symm⟩

/-- Only the queue, the gap and the two lists matter. -/
theorem Accounts.congr {link link' : Link χ} {l l' : Ledger Payload} (h : Accounts link l)
    (hc : link'.view.contents = link.view.contents)
    (hm : link'.lag.firstMissed = link.lag.firstMissed)
    (ho : l'.owed = l.owed) (hd : l'.delivered = l.delivered) : Accounts link' l' := by
  constructor
  · rw [hm, hc, ho, hd]
    exact h.complete
  · rw [hm, hc, ho, hd]
    exact h.gap

/-- A registration that admits the envelope accounts for it, enqueued or missed. -/
theorem Accounts.offer {link : Link χ} (h : Accounts link l)
    (hm : link.lag.firstMissed = 0) (queueBytes : UInt64) (e : EventEnvelope Payload) :
    Accounts (link.offer queueBytes e).1 { l with owed := l.owed ++ [e] } := by
  have hall := h.complete hm
  rcases link.offer_cases queueBytes e with ⟨-, hv, hf⟩ | ⟨-, hv, hf⟩
  · constructor
    · intro _
      rw [hv, ← hall, append_assoc]
    · intro hne
      rw [hf] at hne
      exact absurd hm hne
  · rw [if_pos hm] at hf
    constructor
    · intro hz
      rw [hf] at hz
      exact absurd hz e.ordinal.get_ne_zero
    · intro _
      refine ⟨e, [], ?_, hf.symm⟩
      rw [hv, hall]

/-- Behind the gap it does not matter what else is owed. -/
theorem Accounts.owe {link : Link χ} (h : Accounts link l)
    (hm : link.lag.firstMissed ≠ 0) (e : EventEnvelope Payload) :
    Accounts link { l with owed := l.owed ++ [e] } := by
  refine ⟨fun hz => absurd hz hm, fun _ => ?_⟩
  obtain ⟨first, rest, ho, hf⟩ := h.gap hm
  refine ⟨first, rest ++ [e], ?_, hf⟩
  rw [ho, append_assoc, cons_append]

/-! ## The registry and the book -/

/-- The registry is what the book says it should be. -/
structure Sound (bus : EventBus χ) (book : Book Payload) : Prop where
  created : bus.created = book.length
  ids : (bus.subscribers.map (·.id)).Nodup
  /-- Every subscriber has its ledger. -/
  owners : ∀ s ∈ bus.subscribers, ∃ l, book[s.link]? = some l
    ∧ l.toRegistration = s.toRegistration
  /-- Registered are those that have not ended and missed nothing. -/
  live : ∀ c l, book[c]? = some l → (l.ended = false ∧ (bus.links c).lag.firstMissed = 0
    ↔ ∃ s ∈ bus.subscribers, s.link = c)
  /-- Only their channels are open for sending. -/
  sending : ∀ c l, book[c]? = some l → ((bus.links c).view.sending = true
    ↔ ∃ s ∈ bus.subscribers, s.link = c)

theorem retain_same (bus : EventBus χ) (keep : Subscriber → Bool)
    (hnd : (bus.subscribers.map (·.link)).Nodup) (c : Nat) :
    ((bus.retain keep).links c).view.contents = (bus.links c).view.contents
      ∧ ((bus.retain keep).links c).lag = (bus.links c).lag := by
  rcases retain_links keep hnd c with ⟨-, h⟩ | ⟨-, h⟩
  · rw [h, Link.view, view_dropSender]
    exact ⟨rfl, rfl⟩
  · rw [h]
    exact ⟨rfl, rfl⟩

theorem Accounts.retain {bus : EventBus χ} {c : Nat} (h : Accounts (bus.links c) l)
    (keep : Subscriber → Bool) (hnd : (bus.subscribers.map (·.link)).Nodup) :
    Accounts ((bus.retain keep).links c) l := by
  obtain ⟨hc, hm⟩ := retain_same bus keep hnd c
  exact h.congr hc (congrArg LagState.firstMissed hm) rfl rfl

section Sound

variable {bus : EventBus χ} {book : Book Payload}

section

variable (h : Sound bus book) {s : Subscriber}
include h

theorem Sound.nodup_links : (bus.subscribers.map (·.link)).Nodup := by
  refine List.Nodup.map_on ?_ (List.Nodup.of_map _ h.ids)
  intro s hs t ht he
  obtain ⟨l, hl, hr⟩ := h.owners s hs
  obtain ⟨l', hl', hr'⟩ := h.owners t ht
  rw [he, hl', Option.some.injEq] at hl
  subst hl
  have hid : s.id = t.id := congrArg Registration.id (hr.symm.trans hr')
  exact inj_on_of_nodup_map h.ids hs ht hid

theorem Sound.link_lt (hs : s ∈ bus.subscribers) : s.link < book.length := by
  obtain ⟨l, hl, -⟩ := h.owners s hs
  exact (List.getElem?_eq_some_iff.mp hl).1

theorem Sound.owner (hs : s ∈ bus.subscribers)
    (hl : book[s.link]? = some l) : l.toRegistration = s.toRegistration := by
  obtain ⟨l', hl', hr⟩ := h.owners s hs
  rw [hl, Option.some.injEq] at hl'
  rw [hl']
  exact hr

theorem Sound.owner_id (hs : s ∈ bus.subscribers) (hl : book[s.link]? = some l) : l.id = s.id :=
  congrArg Registration.id (h.owner hs hl)

/-- A link may change as long as no gap appears and the sending end neither opens nor closes. -/
theorem Sound.set_link (k : Nat) (link : Link χ)
    (hlag : link.lag.firstMissed = (bus.links k).lag.firstMissed)
    (hsend : link.view.sending = (bus.links k).view.sending) :
    Sound { bus with links := update bus.links k link } book := by
  have hsame : ∀ c, (update bus.links k link c).lag.firstMissed = (bus.links c).lag.firstMissed
      ∧ (update bus.links k link c).view.sending = (bus.links c).view.sending := by
    intro c
    by_cases hc : c = k
    · rw [hc, update_self]
      exact ⟨hlag, hsend⟩
    · rw [update_of_ne hc]
      exact ⟨rfl, rfl⟩
  refine { h with live := fun c l hl => ?_, sending := fun c l hl => ?_ }
  · rw [(hsame c).1]
    exact h.live c l hl
  · rw [(hsame c).2]
    exact h.sending c l hl

section

variable {book' : Book Payload} (hlen : book'.length = book.length)
include hlen

theorem Sound.owners_of (hsame : ∀ (c : Nat) (l' : Ledger Payload), book'[c]? = some l' →
      ∃ l, book[c]? = some l ∧ l'.toRegistration = l.toRegistration) :
    ∀ s ∈ bus.subscribers, ∃ l, book'[s.link]? = some l ∧ l.toRegistration = s.toRegistration := by
  intro s hs
  have hlt : s.link < book'.length := hlen ▸ h.link_lt hs
  obtain ⟨l, hl, hr⟩ := hsame s.link _ (getElem?_eq_getElem hlt)
  exact ⟨_, getElem?_eq_getElem hlt, hr.trans (h.owner hs hl)⟩

/-- **The rule for removals.** The registry is sound afterwards if those that stay are those the
book calls live; meanwhile the links may have changed and the ledgers moved on. -/
theorem Sound.retain {bus' : EventBus χ} {keep : Subscriber → Bool}
    (hcreated : bus'.created = bus.created) (hsubs : bus'.subscribers = bus.subscribers)
    (hlinks : ∀ c, (bus'.links c).view.sending = (bus.links c).view.sending)
    (hsame : ∀ c l', book'[c]? = some l' →
      ∃ l, book[c]? = some l ∧ l'.toRegistration = l.toRegistration
        ∧ (l'.ended = false ∧ (bus'.links c).lag.firstMissed = 0
          ↔ ∃ s ∈ bus.subscribers, s.link = c ∧ keep s = true)) :
    Sound (bus'.retain keep) book' := by
  have hnd := h.nodup_links
  have hids := h.ids
  have howners := h.owners_of hlen fun c l' hl' => (hsame c l' hl').imp fun _ hl => ⟨hl.1, hl.2.1⟩
  have hsending := h.sending
  rw [← hsubs] at hnd hids howners hsending hsame
  have hstay : ∀ c, (∃ s ∈ (bus'.retain keep).subscribers, s.link = c)
      ↔ ∃ s ∈ bus'.subscribers, s.link = c ∧ keep s = true := by
    intro c
    refine exists_congr fun s => ?_
    rw [EventBus.retain, mem_filter, and_assoc, and_comm (a := keep s = true)]
  refine ⟨?_, (filter_sublist.map _).nodup hids, fun s hs => howners s (mem_filter.mp hs).1, ?_, ?_⟩
  · exact hcreated.trans (h.created.trans hlen.symm)
  · intro c l' hl'
    obtain ⟨-, -, -, hlive⟩ := hsame c l' hl'
    rw [hstay, (retain_same bus' keep hnd c).2]
    exact hlive
  · intro c l' hl'
    obtain ⟨l, hl, -, -⟩ := hsame c l' hl'
    rw [hstay]
    rcases retain_links keep hnd c with ⟨⟨s, hs, hc, hk⟩, h⟩ | ⟨hall, h'⟩
    · -- its only subscriber is gone, and the channel is closed
      rw [h, Link.view, view_dropSender]
      constructor
      · intro hf
        cases hf
      · intro hex
        rcases hex with ⟨t, ht, htc, htk⟩
        have hst : s = t := inj_on_of_nodup_map hnd hs ht (hc.trans htc.symm)
        rw [hst, htk] at hk
        cases hk
    · rw [h', hlinks, hsending c l hl]
      refine exists_congr fun s => and_congr_right fun hs => ?_
      exact (and_iff_left_of_imp (hall s hs)).symm

/-- Ledgers may change as long as they stay whose they are and none ends. -/
theorem Sound.set_book
    (hsame : ∀ (c : Nat) (l' : Ledger Payload), book'[c]? = some l' → ∃ l, book[c]? = some l
      ∧ l'.toRegistration = l.toRegistration ∧ l'.ended = l.ended) : Sound bus book' := by
  refine ⟨h.created.trans hlen.symm, h.ids, h.owners_of hlen fun c l' hl' => ?_, ?_, ?_⟩
  · obtain ⟨l, hl, hr, -⟩ := hsame c l' hl'
    exact ⟨l, hl, hr⟩
  · intro c l' hl'
    obtain ⟨l, hl, -, he⟩ := hsame c l' hl'
    rw [he]
    exact h.live c l hl
  · intro c l' hl'
    obtain ⟨l, hl, -, -⟩ := hsame c l' hl'
    exact h.sending c l hl

end

end

/-! ## One call on a sound registry -/

/-- Removing a connection whose only registration is at `c` ends that one. -/
theorem Sound.unsubscribe_only (h : Sound bus book) {id : ConnectionId} {c : Nat}
    (honly : ∀ r ∈ bus.subscribers, r.id = id ↔ r.link = c) :
    Sound (bus.unsubscribe id) (book.modify c (·.finish)) := by
  refine h.retain (length_modify _ _ _) rfl rfl (fun _ => rfl) fun k l' hl' => ?_
  obtain ⟨l, hl, rfl⟩ := modify_some hl'
  refine ⟨l, hl, ?_⟩
  split_ifs with hc
  · refine ⟨rfl, ?_, ?_⟩
    · intro hboth
      rcases hboth with ⟨hf, -⟩
      cases hf
    · intro hex
      rcases hex with ⟨r, hr, hrk, hkeep⟩
      exact absurd ((honly r hr).mpr (hrk.trans hc.symm)) (bne_iff_ne.mp hkeep)
  · rw [h.live k l hl]
    refine ⟨rfl, ?_, ?_⟩
    · intro hex
      rcases hex with ⟨r, hr, hrk⟩
      refine ⟨r, hr, hrk, bne_iff_ne.mpr fun hid => hc ?_⟩
      exact ((honly r hr).mp hid).symm.trans hrk
    · intro hex
      rcases hex with ⟨r, hr, hrk, -⟩
      exact ⟨r, hr, hrk⟩

/-- A bus with one more subscriber, at the next address. -/
def EventBus.register (bus : EventBus χ) (r : Registration) : EventBus χ :=
  { bus with
    subscribers := bus.subscribers ++ [⟨r, bus.created⟩]
    links := Function.update bus.links bus.created
      ⟨Channel.channel bus.queueCapacity.toNat, ⟨0, 0⟩⟩
    created := bus.created + 1 }

/-- Registering removes first and adds then; that the channel is made before does not matter. -/
theorem subscribeBound_eq (h : Sound bus book) (id : ConnectionId) (role : Role)
    (scopes : List OperatorScope) (filter : Nat) (deviceId : Option String) :
    bus.subscribeBound id role scopes filter deviceId
      = (⟨id, bus.created⟩, (bus.unsubscribe id).register ⟨id, deviceId, role, scopes, filter⟩) := by
  have hfresh : ∀ s ∈ bus.subscribers.filter (fun s => !(s.id != id)), s.link ≠ bus.created := by
    intro s hs
    have hlt := h.link_lt (mem_filter.mp hs).1
    rw [h.created]
    omega
  unfold subscribeBound register unsubscribe retain
  dsimp only
  rw [updateEach_update _ _ _ _ hfresh]

section

variable (h : Sound bus book) (r : Registration)
include h r

theorem register_link :
    (bus.register r).links book.length = ⟨Channel.channel bus.queueCapacity.toNat, ⟨0, 0⟩⟩ := by
  rw [← h.created]
  exact update_self _ _ _

theorem register_view :
    ((bus.register r).links book.length).view = Queue.channel bus.queueCapacity.toNat := by
  rw [register_link h r, Link.view, view_channel]

theorem register_links_of_ne {c : Nat}
    (hc : c ≠ book.length) : (bus.register r).links c = bus.links c := by
  rw [← h.created] at hc
  exact update_of_ne hc _ _

theorem register_old {c : Nat} (hc : c ≠ book.length) :
    (∃ s ∈ (bus.register r).subscribers, s.link = c) ↔ ∃ s ∈ bus.subscribers, s.link = c := by
  have hne : bus.created ≠ c := fun he => hc (he.symm.trans h.created)
  simp [EventBus.register, or_and_right, exists_or, hne]

theorem Sound.register
    (hnew : ∀ s ∈ bus.subscribers, s.id ≠ r.id) : Sound (bus.register r) (book ++ [.start r]) := by
  have hmine : ∃ s ∈ (bus.register r).subscribers, s.link = book.length :=
    ⟨⟨r, bus.created⟩, mem_append_right _ mem_cons_self, h.created⟩
  refine ⟨?_, ?_, ?_, ?_, ?_⟩
  · rw [length_append, ← h.created]
    rfl
  · have hids : (bus.register r).subscribers.map (·.id) = bus.subscribers.map (·.id) ++ [r.id] :=
      map_append
    rw [hids]
    refine h.ids.append (nodup_singleton _) ?_
    intro id hid hr
    obtain ⟨s, hs, rfl⟩ := mem_map.mp hid
    exact hnew s hs (mem_singleton.mp hr)
  · intro s hs
    rcases mem_append.mp hs with hs | hs
    · obtain ⟨l, hl, hr⟩ := h.owners s hs
      exact ⟨l, concat_get _ hl, hr⟩
    · rw [mem_singleton.mp hs]
      exact ⟨.start r, by rw [h.created]; exact getElem?_concat_length, rfl⟩
  · intro c l hl
    rcases getElem?_concat_some hl with hl | ⟨rfl, rfl⟩
    · obtain ⟨hc, -⟩ := List.getElem?_eq_some_iff.mp hl
      rw [register_old h r hc.ne, register_links_of_ne h r hc.ne]
      exact h.live c l hl
    · rw [register_link h r]
      exact ⟨fun _ => hmine, fun _ => ⟨rfl, rfl⟩⟩
  · intro c l hl
    rcases getElem?_concat_some hl with hl | ⟨rfl, rfl⟩
    · obtain ⟨hc, -⟩ := List.getElem?_eq_some_iff.mp hl
      rw [register_old h r hc.ne, register_links_of_ne h r hc.ne]
      exact h.sending c l hl
    · rw [register_view h r]
      exact ⟨fun _ => hmine, fun _ => rfl⟩

end

/-- With one subscriber a connection, the first one is all of them. -/
theorem reauthorizeFirst_eq (id : ConnectionId) (role : Role) (scopes : List OperatorScope) :
    ∀ {subscribers : List Subscriber}, (subscribers.map (·.id)).Nodup →
      reauthorizeFirst id role scopes subscribers
        = subscribers.map fun s => if s.id = id then { s with role, scopes } else s
  | [], _ => rfl
  | s :: subscribers, hnd => by
    rw [map_cons, nodup_cons] at hnd
    rw [reauthorizeFirst, map_cons]
    by_cases hs : s.id = id
    · rw [if_pos hs, if_pos hs]
      have hrest : ∀ t ∈ subscribers, (if t.id = id then { t with role, scopes } else t) = t := by
        intro t ht
        refine if_neg fun hid => hnd.1 ?_
        rw [hs, ← hid]
        exact mem_map_of_mem ht
      rw [map_congr_left hrest, map_id']
    · rw [if_neg hs, if_neg hs, reauthorizeFirst_eq id role scopes hnd.2]

theorem Sound.reauthorize (h : Sound bus book) (id : ConnectionId) (role : Role)
    (scopes : List OperatorScope) :
    Sound (bus.reauthorize id role scopes).2 (book.map (·.reauthorize id role scopes)) := by
  obtain ⟨change, hchange⟩ : ∃ change : Subscriber → Subscriber,
      change = fun s => if s.id = id then { s with role, scopes } else s := ⟨_, rfl⟩
  have hsubscribers : (bus.reauthorize id role scopes).2.subscribers
      = bus.subscribers.map change := by
    rw [hchange]
    exact reauthorizeFirst_eq id role scopes h.ids
  have hkept : ∀ s, (change s).link = s.link ∧ (change s).id = s.id := by
    intro s
    rw [hchange]
    dsimp only
    split
    · exact ⟨rfl, rfl⟩
    · exact ⟨rfl, rfl⟩
  have hat : ∀ c, (∃ s ∈ bus.subscribers.map change, s.link = c)
      ↔ ∃ s ∈ bus.subscribers, s.link = c := by
    intro c
    simp only [mem_map, exists_exists_and_eq_and, (hkept _).1]
  refine ⟨?_, ?_, ?_, ?_, ?_⟩
  · rw [length_map]
    exact h.created
  · have hids : (fun s : Subscriber => s.id) ∘ change = fun s => s.id :=
      funext fun s => (hkept s).2
    rw [hsubscribers, map_map, hids]
    exact h.ids
  · intro s' hs'
    rw [hsubscribers] at hs'
    obtain ⟨s, hs, rfl⟩ := mem_map.mp hs'
    obtain ⟨l, hl, hr⟩ := h.owners s hs
    have hid : l.id = s.id := congrArg Registration.id hr
    refine ⟨l.reauthorize id role scopes, ?_, ?_⟩
    · rw [(hkept s).1]
      exact map_get _ hl
    · rw [hchange, Ledger.reauthorize]
      dsimp only
      by_cases hs : s.id = id
      · rw [if_pos hs, if_pos (hid.trans hs), hr]
      · rw [if_neg hs, if_neg (fun he => hs (hid.symm.trans he)), hr]
  · intro c l' hl'
    obtain ⟨l, hl, rfl⟩ := map_some hl'
    rw [(l.reauthorize_same id role scopes).2.1, hsubscribers, hat]
    exact h.live c l hl
  · intro c l' hl'
    obtain ⟨l, hl, -⟩ := map_some hl'
    rw [hsubscribers, hat]
    exact h.sending c l hl

/-! ## Fan-out over a sound registry -/

/-- The bus between the fan-out loop and the removals. -/
def EventBus.offerAll (bus : EventBus χ) (filters : Nat → TopicFilter)
    (e : EventEnvelope Payload) : EventBus χ :=
  { bus with
    links := updateEach (·.link) (offered bus.queueBytes filters e) bus.links bus.subscribers }

theorem offerAll_registered (h : Sound bus book) (filters : Nat → TopicFilter)
    (e : EventEnvelope Payload) {s : Subscriber} (hs : s ∈ bus.subscribers) :
    (bus.offerAll filters e).links s.link
      = offered bus.queueBytes filters e s (bus.links s.link) := by
  exact updateEach_of_mem Subscriber.link _ bus.links h.nodup_links hs

omit [LawfulChannel χ (EventEnvelope Payload)] in
theorem offerAll_other (filters : Nat → TopicFilter) (e : EventEnvelope Payload) {c : Nat}
    (hc : ¬ ∃ s ∈ bus.subscribers, s.link = c) : (bus.offerAll filters e).links c = bus.links c := by
  exact updateEach_of_notMem _ _ _ fun s hs he => hc ⟨s, hs, he⟩

section

variable (h : Sound bus book) (filters : Nat → TopicFilter) (e : EventEnvelope Payload)
include h

theorem offerAll_sending (c : Nat) :
    ((bus.offerAll filters e).links c).view.sending = (bus.links c).view.sending := by
  by_cases hc : ∃ s ∈ bus.subscribers, s.link = c
  · obtain ⟨s, hs, rfl⟩ := hc
    rw [offerAll_registered h filters e hs, offered]
    split
    · rcases (bus.links s.link).offer_cases bus.queueBytes e with ⟨-, hv, -⟩ | ⟨-, hv, -⟩
      · rw [hv]
      · rw [hv]
    · rfl
  · rw [offerAll_other filters e hc]

theorem offerAll_gap {s : Subscriber} (hs : s ∈ bus.subscribers) :
    (!misses bus.queueBytes filters e bus.links s) = true
      ↔ ((bus.offerAll filters e).links s.link).lag.firstMissed = 0 := by
  obtain ⟨l, hl, -⟩ := h.owners s hs
  have hzero := ((h.live s.link l hl).mpr ⟨s, hs, rfl⟩).2
  rw [offerAll_registered h filters e hs, misses, offered]
  cases s.admits filters e with
  | false => simp [hzero]
  | true =>
    rcases (bus.links s.link).offer_cases bus.queueBytes e with ⟨hf, -, hm⟩ | ⟨hf, -, hm⟩
    · simp [hf, hm, hzero]
    · simp [hf, hm, hzero, e.ordinal.get_ne_zero]

end

/-- **Fan-out is the loop and then the removal of those that missed the envelope.** -/
theorem fanOut_eq (h : Sound bus book) (filters : Nat → TopicFilter) (e : EventEnvelope Payload) :
    bus.fanOut filters e
      = (bus.offerAll filters e).retain (!misses bus.queueBytes filters e bus.links ·) := by
  -- the loop lists identities, and no two subscribers share one
  have hlisted : ∀ s ∈ bus.subscribers, (!((bus.subscribers.filter
      (misses bus.queueBytes filters e bus.links)).map (·.id)).contains s.id)
        = !misses bus.queueBytes filters e bus.links s := by
    intro s hs
    refine congrArg (!·) (Bool.eq_iff_iff.mpr ?_)
    rw [contains_iff_mem]
    constructor
    · intro hm
      obtain ⟨t, ht, hid⟩ := mem_map.mp hm
      obtain ⟨ht, hmiss⟩ := mem_filter.mp ht
      rw [← inj_on_of_nodup_map h.ids ht hs hid]
      exact hmiss
    · intro hm
      exact mem_map_of_mem (mem_filter.mpr ⟨hs, hm⟩)
  rw [fanOut, foldl_offerTo _ _ _ _ _ _ h.nodup_links]
  dsimp only
  rw [nil_append]
  split_ifs with hnil
  · -- nobody lagged, and removing nobody changes nothing
    rw [List.isEmpty_iff, map_eq_nil_iff, filter_eq_nil_iff] at hnil
    have hall : ∀ s ∈ bus.subscribers, (!misses bus.queueBytes filters e bus.links s) = true := by
      intro s hs
      rw [Bool.not_eq_true', ← Bool.not_eq_true]
      exact hnil s hs
    have hnone : bus.subscribers.filter (!!misses bus.queueBytes filters e bus.links ·) = [] := by
      rw [filter_eq_nil_iff]
      intro s hs
      rw [Bool.not_not]
      exact hnil s hs
    rw [offerAll, retain]
    rw [filter_eq_self.mpr hall, hnone]
    rfl
  · rw [retain, retain, filter_congr hlisted]
    congr 2
    exact filter_congr fun s hs => congrArg (!·) (hlisted s hs)

end Sound

end GtaClaw.Gateway
