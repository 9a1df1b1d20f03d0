import GtaClaw.Approval.Account

/-!
# Every step keeps the account

One lemma for each thing a call can do: a request moves on, tells the port, takes
its own entry away or registers it; a decision takes an entry, a sweep takes them
all. The stage of the request then decides which of them applies.
-/

namespace GtaClaw.Approval

open Lib GtaClaw.Runtime Waiter World List

variable {w : World} {i : Nat} {v v' : Waiter} {request : ApprovalRequest}

/-! ## Moves of a request -/

section

variable (h : Inv w) (hv : w.Serves i v request)
include h hv

theorem Inv.own_entry {entry : Pending}
    (hlookup : w.broker.pending.lookup request.approvalId = some entry) :
    entry.request = request ∧ entry.responder = i ∧ v.mailbox = .empty := by
  obtain ⟨hid, u, hu, hempty⟩ := h.entry _ entry hlookup
  have hresponder : entry.responder = i := h.unique _ _ _ _ _ _ hu hv hid
  subst hresponder
  obtain ⟨rfl, rfl⟩ := hu.inj hv
  exact ⟨rfl, rfl, hempty⟩

theorem Inv.restage (hreq : v'.request = some request)
    (hposition : Position w.cancelled w.revoked v' (w.held request.approvalId)
      (w.charged request.approvalId) (w.answers request.approvalId))
    (hmailbox : v'.mailbox = v.mailbox) (haccepted : v'.decisionAccepted = v.decisionAccepted)
    (hlistens : v'.stage.listens = true → v.stage.listens = true) : Inv (w.put i v' w.broker []) :=
  h.put hv hreq (fun _ _ => rfl) (fun _ => h.own_entry hv) rfl (fun _ _ => rfl) hposition hmailbox
    haccepted fun hl => .inl (hlistens hl)

theorem Inv.tell {call : PortCall} {stage : Stage}
    (hcall : ∀ id, dismisses id call = decide (request.approvalId = id))
    (hposition : Position w.cancelled w.revoked { v with stage := stage }
      (w.held request.approvalId) (w.charged request.approvalId + 1)
      (w.answers request.approvalId))
    (hlistens : stage.listens = false) :
    Inv (w.put i { v with stage := stage } w.broker [call]) := by
  have hcount : ∀ id, [call].countP (dismisses id) = if request.approvalId = id then 1 else 0 := by
    intro id
    rw [countP_singleton, hcall]
    by_cases hid : request.approvalId = id
    · rw [decide_eq_true hid, if_pos rfl, if_pos hid]
    · rw [decide_eq_false hid, if_neg Bool.false_ne_true, if_neg hid]
  refine h.put hv hv.2 (fun _ _ => rfl) (fun _ => h.own_entry hv) rfl (fun id hid => ?_) ?_ rfl rfl
    fun hl => ?_
  · rw [hcount, if_neg fun heq => hid heq.symm]
  · rw [hcount, if_pos rfl]
    exact hposition
  · exact absurd (hl.symm.trans hlistens) nofun

theorem Inv.take {stage : Stage}
    (hposition : Position w.cancelled w.revoked { v with stage := stage } false
      (w.charged request.approvalId) (w.answers request.approvalId))
    (hlistens : stage.listens = false) :
    Inv (w.put i { v with stage := stage } (w.broker.discard request.approvalId).2 []) := by
  have hnone : ((w.broker.discard request.approvalId).2.pending).lookup request.approvalId = none :=
    AList.lookup_erase _ _
  refine h.put hv hv.2 (fun id hid => AList.lookup_erase_ne hid) (fun entry hlookup => ?_) rfl
    (fun _ _ => rfl) ?_ rfl rfl fun hl => ?_
  · rw [hnone] at hlookup
    cases hlookup
  · rw [hnone]
    exact hposition
  · exact absurd (hl.symm.trans hlistens) nofun

theorem Inv.register (token : Option String)
    (hposition : Position w.cancelled w.revoked { v with stage := .presenting } true
      (w.charged request.approvalId) (w.answers request.approvalId))
    (hempty : v.mailbox = .empty) (hanswers : w.answers request.approvalId = []) :
    Inv (w.put i { v with stage := .presenting }
      { w.broker with
        pending := w.broker.pending.insert request.approvalId
          ⟨request, v.authority, v.binding, token, i, v.cancel⟩ }
      [.present request.approvalId]) := by
  refine h.put hv hv.2 (fun id hid => AList.lookup_insert_ne hid) (fun e hlookup => ?_) rfl
    (fun _ _ => rfl) ?_ rfl rfl fun _ => .inr hanswers
  · rw [AList.lookup_insert] at hlookup
    cases hlookup
    exact ⟨rfl, rfl, hempty⟩
  · rw [AList.lookup_insert]
    exact hposition

theorem Inv.stay : Inv (w.put i v w.broker []) :=
  h.restage hv hv.2 (h.position i v request hv) rfl rfl id

theorem Inv.endWait {arm arm' : Arm} (hs : v.stage = .selecting arm)
    (hended : Ended w.cancelled w.revoked { v with stage := .ended, ending := some arm' }) :
    Inv (w.put i { v with stage := .ended, ending := some arm' } w.broker []) := by
  have hp := h.position i v request hv
  unfold Position at hp
  rw [hs] at hp
  exact h.restage hv hv.2 ⟨hp, hended⟩ rfl rfl nofun

end

variable {charged : Nat}

/-- Who has taken the unit has still to dismiss the prompt. -/
theorem Waits.taken {b : Bool} (h : Waits v b charged)
    (ht : (b || v.decisionAccepted) = true) : charged = 0 := by
  unfold Waits at h
  rcases Bool.or_eq_true_iff.mp ht with htrue | htrue
  · rw [htrue, Bool.toNat_true] at h
    omega
  · rw [htrue, Bool.toNat_true] at h
    omega

/-- Who has not taken it has nothing to do: a sweep has. -/
theorem Waits.left {b : Bool} (h : Waits v b charged)
    (ht : ¬ (b || v.decisionAccepted) = true) : charged = 1 := by
  rw [Bool.or_eq_true_iff, not_or, Bool.not_eq_true, Bool.not_eq_true] at ht
  unfold Waits at h
  rw [ht.1, ht.2] at h
  omega

section

variable (h : Inv w) (hv : w.Serves i v request)
include h hv

theorem Inv.proceed :
    Inv (w.put i (v.proceed w i request).1 (v.proceed w i request).2.1
      (v.proceed w i request).2.2) := by
  have hp := h.position i v request hv
  have hmail := h.mail i v request hv
  unfold Position at hp
  fun_cases Waiter.proceed w i v request with
  | case1 hs =>
    rw [hs] at hp
    exact h.restage hv hv.2 hp rfl rfl nofun
  | case3 _ token hs =>
    rw [hs] at hp
    obtain ⟨-, haccepted, hcharged, hpresented, hempty⟩ := hp
    have hanswers : w.answers request.approvalId = [] := by
      rw [← length_eq_zero_iff, hmail.answered, haccepted]
      rfl
    refine h.register hv token ⟨?_, hpresented⟩ hempty hanswers
    rw [hcharged, haccepted]
    rfl
  | case4 hs hcancelled => exact h.endWait hv hs ⟨_, rfl, hcancelled⟩
  | case6 hs hrevoked => exact h.endWait hv hs ⟨_, rfl, hrevoked⟩
  | case9 hs hbox => exact h.endWait hv hs ⟨.receiver, rfl, hmail.disconnected hbox⟩
  | case11 hs => exact h.endWait hv hs ⟨_, rfl, trivial⟩
  | case5 hs | case7 hs | case10 hs | case12 hs =>
    rw [hs] at hp
    exact h.restage hv hv.2 hp rfl rfl fun _ => by rw [hs]; rfl
  | case8 _ hs decision hbox =>
    rw [hs] at hp
    have hanswers := hmail.delivered decision hbox
    have hone := hmail.answered
    rw [hanswers, length_singleton] at hone
    unfold Waits at hp
    have hheld : (w.held request.approvalId).toNat = 0 := by omega
    have hcharged : w.charged request.approvalId = 0 := by omega
    refine h.tell hv (fun _ => rfl) ⟨?_, ?_, hanswers⟩ rfl
    · exact Bool.toNat_eq_zero.mp hheld
    · rw [hcharged]
  | case13 _ hs _ _ hdiscard =>
    rw [hs] at hp
    cases hdiscard
    exact h.take hv ⟨rfl, hp.1, hp.2⟩ rfl
  | case14 _ _ hs htaken =>
    rw [hs] at hp
    obtain ⟨hheld, hwaits, hended⟩ := hp
    exact h.tell hv (fun _ => rfl) ⟨hheld, by rw [hwaits.taken htaken], hended⟩ rfl
  | case15 _ hs hleft =>
    rw [hs] at hp
    obtain ⟨hheld, hwaits, hended⟩ := hp
    exact h.restage hv hv.2 ⟨hheld, .withdrawn hended (hwaits.left hleft)⟩ rfl rfl nofun
  | case16 _ hs _ _ hdiscard =>
    rw [hs] at hp
    cases hdiscard
    exact h.take hv ⟨rfl, hp⟩ rfl
  | case17 _ _ hs htaken =>
    rw [hs] at hp
    exact h.tell hv (fun _ => rfl) ⟨hp.1, by rw [hp.2.taken htaken]⟩ rfl
  | case18 _ hs hleft =>
    rw [hs] at hp
    exact h.restage hv hv.2 ⟨hp.1, hp.2.left hleft⟩ rfl rfl nofun
  | case2 | case19 => exact h.stay hv

/-! ## Answers of the port -/

theorem Inv.bound (result : Except PortError String) :
    Inv (w.put i (v.bound result) w.broker []) := by
  have hp := h.position i v request hv
  unfold Position at hp
  fun_cases Waiter.bound v result with
  | case1 _ _ hs | case2 _ _ hs =>
    rw [hs] at hp
    obtain ⟨hheld, haccepted, hcharged, hpresented, hempty⟩ := hp
    refine h.restage hv hv.2 ⟨hheld, .failed (by omega) fun ht => ?_⟩ rfl rfl nofun
    exact absurd (hpresented.symm.trans ht) nofun
  | case3 _ _ hs =>
    rw [hs] at hp
    exact h.restage hv hv.2 hp rfl rfl nofun
  | case4 => exact h.stay hv

theorem Inv.shown (result : Except PortError Unit) :
    Inv (w.put i (v.shown w request result).1 (v.shown w request result).2 []) := by
  have hp := h.position i v request hv
  unfold Position at hp
  unfold Waiter.shown
  cases hs : v.stage with
  | presenting =>
    rw [hs] at hp
    cases result with
    | ok _ => exact h.restage hv hv.2 hp.1 rfl rfl fun _ => by rw [hs]; rfl
    | error e =>
      have hle : w.charged request.approvalId ≤ 1 := by
        have hwaits := hp.1
        unfold Waits at hwaits
        omega
      refine h.take hv ⟨rfl, .failed hle fun ht => ?_⟩ rfl
      exact absurd (hp.2.symm.trans ht) nofun
  | _ => exact h.stay hv

theorem Inv.dismissed (result : Except PortError Unit) :
    Inv (w.put i (v.dismissed result) w.broker []) := by
  have hp := h.position i v request hv
  unfold Position at hp
  fun_cases Waiter.dismissed v result with
  | case1 _ _ hs | case3 _ _ hs =>
    rw [hs] at hp
    exact h.restage hv hv.2 ⟨hp.1, .failed (by omega) fun _ => hp.2.1⟩ rfl rfl nofun
  | case2 _ hs =>
    rw [hs] at hp
    exact h.restage hv hv.2 ⟨hp.1, .withdrawn hp.2.2 hp.2.1⟩ rfl rfl nofun
  | case4 _ hs =>
    rw [hs] at hp
    exact h.restage hv hv.2 ⟨hp.1, .decided hp.2.2 hp.2.1⟩ rfl rfl nofun
  | case5 => exact h.stay hv

theorem Inv.drop : Inv (w.put i (v.drop w (some request)).1 (v.drop w (some request)).2 []) := by
  have hp := h.position i v request hv
  unfold Position at hp
  unfold Waiter.drop
  split
  · rename_i hs
    rw [hs] at hp
    exact hp.elim
  · rename_i hs heq
    cases heq
    rw [hs] at hp
    exact h.take hv ⟨rfl, hp.1⟩ rfl
  · rename_i hs _
    rw [hs] at hp
    exact h.restage hv hv.2 hp rfl rfl nofun
  · rename_i hs _
    rw [hs] at hp
    exact h.restage hv hv.2 ⟨hp.1, hp.2.1⟩ rfl rfl nofun
  · rename_i hs _
    rw [hs] at hp
    exact h.restage hv hv.2 ⟨hp.1, hp.2.1⟩ rfl rfl nofun
  · exact h.stay hv

end

/-! ## Steps that leave the accounts alone -/

theorem any_mono {α : Type} {o : Option α} {p q : α → Bool} (h : ∀ x, p x = true → q x = true)
    (ho : o.any p = true) : o.any q = true := by
  obtain ⟨x, hx, hp⟩ := (Option.any_eq_true _ _).mp ho
  exact (Option.any_eq_true _ _).mpr ⟨x, hx, h x hp⟩

variable {answers : List ApprovalDecision}

section Signals

variable {cancelled cancelled' revoked revoked' : Nat → Bool}
  (hc : cancelled ≤ cancelled') (hr : revoked ≤ revoked')
include hc hr

theorem Ended.mono (h : Ended cancelled revoked v) : Ended cancelled' revoked' v := by
  obtain ⟨arm, harm, hwhy⟩ := h
  refine ⟨arm, harm, ?_⟩
  cases arm with
  | cancel => exact hc _ hwhy
  | revoked => exact any_mono (fun _ => any_mono hr) hwhy
  | receiver => exact hwhy
  | deadline => trivial

theorem Position.mono {held : Bool} (h : Position cancelled revoked v held charged answers) :
    Position cancelled' revoked' v held charged answers := by
  unfold Position at h ⊢
  cases hs : v.stage with rw [hs] at h
  | ended => exact ⟨h.1, h.2.mono hc hr⟩
  | dismissing | withdrawing => exact ⟨h.1, h.2.1, h.2.2.mono hc hr⟩
  | returned =>
    refine ⟨h.1, ?_⟩
    cases h.2 with
    | decided hanswers hcharged => exact .decided hanswers hcharged
    | withdrawn hended hcharged => exact .withdrawn (hended.mono hc hr) hcharged
    | failed hcharged hpresented => exact .failed hcharged hpresented
  | _ => exact h

end Signals

/-- Nothing about any approval changes; signals may be given, and calls refused. -/
theorem Inv.frame {w' : World} (h : Inv w) (hserves : ∀ j u r, w'.Serves j u r ↔ w.Serves j u r)
    (hfresh : ∀ (j : Nat) (u : Waiter), w'.waiters[j]? = some u → u.request = none →
      u.decisionAccepted = false ∧ u.mailbox = .empty ∧ u.presented = false ∧
        u.stage.listens = false)
    (hpending : w'.broker.pending = w.broker.pending) (hnext : w.broker.nextId ≤ w'.broker.nextId)
    (hcharged : ∀ id, w'.charged id = w.charged id) (hanswers : ∀ id, w'.answers id = w.answers id)
    (hcalls : ∀ (k : Nat) (call : Resolve), w'.resolves[k]? = some call →
      (∀ e, call.stage ≠ .refused e) → w.resolves[k]? = some call)
    (hc : w.cancelled ≤ w'.cancelled) (hr : w.revoked ≤ w'.revoked) : Inv w' := by
  have hheld : ∀ id, w'.held id = w.held id := by
    intro id
    rw [held, hpending]
    rfl
  refine ⟨?_, ?_, hfresh, ?_, ?_, ?_, ?_, ?_⟩
  · intro j u r hu
    rw [hheld, hcharged, hanswers]
    exact (h.position j u r ((hserves _ _ _).mp hu)).mono hc hr
  · intro j u r hu
    rw [hanswers]
    exact h.mail j u r ((hserves _ _ _).mp hu)
  · intro id entry hlookup
    rw [hpending] at hlookup
    obtain ⟨hid, u, hu, hempty⟩ := h.entry id entry hlookup
    exact ⟨hid, u, (hserves _ _ _).mpr hu, hempty⟩
  · intro j u r hu
    obtain ⟨n, hn, hmints⟩ := h.minted j u r ((hserves _ _ _).mp hu)
    exact ⟨n, hn.trans hnext, hmints⟩
  · intro j u r j' u' r' hu hu'
    exact h.unique _ _ _ _ _ _ ((hserves _ _ _).mp hu) ((hserves _ _ _).mp hu')
  · intro id hid
    rw [hcharged, hanswers]
    exact h.strange id fun j u r hu => hid j u r ((hserves _ _ _).mpr hu)
  · intro k call hcall hstage
    obtain ⟨u, r, hu, hid, hdone⟩ := h.call k call (hcalls k call hcall hstage) hstage
    exact ⟨u, r, (hserves _ _ _).mpr hu, hid, hdone⟩

/-! ## Before an identifier is minted -/

theorem Inv.early {broker : BrokerState} (h : Inv w) (hv : w.waiters[i]? = some v)
    (hnone : v.request = none) {stage : Stage} (hlistens : stage.listens = false)
    (hpending : broker.pending = w.broker.pending) (hnext : w.broker.nextId ≤ broker.nextId) :
    Inv (w.put i { v with stage := stage } broker []) := by
  refine h.frame (fun j u r => ⟨fun hu => ?_, fun hu => ?_⟩) (fun j u hu hn => ?_) hpending hnext
    (fun id => by rw [charged_put]; rfl) (fun _ => rfl) (fun _ _ hcall _ => hcall) le_rfl le_rfl
  · rcases serves_put hu with ⟨-, rfl⟩ | ⟨-, hold⟩
    · cases hnone.symm.trans hu.2
    · exact hold
  · refine serves_put_ne (fun heq => ?_) hu
    subst heq
    cases hu.1.symm.trans hv
    cases hnone.symm.trans hu.2
  · rcases getElem?_set_some hu with ⟨-, rfl⟩ | ⟨-, hold⟩
    · obtain ⟨haccepted, hempty, hpresented, -⟩ := h.fresh i v hv hnone
      exact ⟨haccepted, hempty, hpresented, hlistens⟩
    · exact h.fresh j u hold hn

variable {r : ApprovalRequest} {cancelled revoked : Nat → Bool} {decision : ApprovalDecision}
  {id : ApprovalId}

theorem Inv.mint (h : Inv w) (hv : w.waiters[i]? = some v) (hnone : v.request = none) {n : Nat}
    (hn : w.broker.nextId < n) (hmints : Mints n r.approvalId) :
    Inv (w.put i { v with stage := .binding, request := some r } { w.broker with nextId := n }
      []) := by
  obtain ⟨haccepted, hempty, hpresented, -⟩ := h.fresh i v hv hnone
  have hunserved : ∀ j u r', w.Serves j u r' → r'.approvalId ≠ r.approvalId := by
    intro j u r' hu heq
    obtain ⟨m, hm, hmints'⟩ := h.minted j u r' hu
    rw [heq] at hmints'
    rw [hmints'.inj hmints] at hm
    omega
  obtain ⟨hcharged, hanswers⟩ := h.strange r.approvalId hunserved
  have hheld : w.held r.approvalId = false := by
    refine Option.isSome_eq_false_iff.mpr (Option.isNone_iff_eq_none.mpr ?_)
    refine Option.eq_none_iff_forall_ne_some.mpr fun entry hlookup => ?_
    obtain ⟨hid, u, hu, -⟩ := h.entry _ entry hlookup
    exact hunserved _ _ _ hu hid
  -- the requests before are still there, and the new one is not among them
  have hkeep : ∀ {j : Nat} {u : Waiter} {r' : ApprovalRequest}, w.Serves j u r' → j ≠ i := by
    rintro j u r' hu rfl
    cases hu.1.symm.trans hv
    cases hnone.symm.trans hu.2
  refine ⟨?_, ?_, ?_, ?_, ?_, ?_, ?_, ?_⟩
  · intro j u r' hu
    rw [charged_put]
    rcases serves_put hu with ⟨-, rfl⟩ | ⟨-, hold⟩
    · cases hu.2
      exact ⟨hheld, haccepted, hcharged, hpresented, hempty⟩
    · exact h.position j u r' hold
  · intro j u r' hu
    rcases serves_put hu with ⟨-, rfl⟩ | ⟨-, hold⟩
    · cases hu.2
      refine ⟨?_, fun d hd => ?_, fun _ => haccepted⟩
      · rw [show (w.put i _ _ []).answers r.approvalId = w.answers r.approvalId from rfl, hanswers,
          haccepted]
        rfl
      · cases hempty.symm.trans hd
    · exact h.mail j u r' hold
  · intro j u hu hn'
    rcases getElem?_set_some hu with ⟨-, rfl⟩ | ⟨-, hold⟩
    · cases hn'
    · exact h.fresh j u hold hn'
  · intro id entry hlookup
    obtain ⟨hid, u, hu, hempty⟩ := h.entry id entry hlookup
    exact ⟨hid, u, serves_put_ne (hkeep hu) hu, hempty⟩
  · intro j u r' hu
    rcases serves_put hu with ⟨-, rfl⟩ | ⟨-, hold⟩
    · cases hu.2
      exact ⟨n, le_rfl, hmints⟩
    · obtain ⟨m, hm, hmints'⟩ := h.minted j u r' hold
      exact ⟨m, (Nat.lt_of_le_of_lt hm hn).le, hmints'⟩
  · intro j u r₁ j' u' r₂ hu hu' heq
    rcases serves_put hu with ⟨rfl, rfl⟩ | ⟨-, hold⟩
    · rcases serves_put hu' with ⟨rfl, -⟩ | ⟨-, hold'⟩
      · rfl
      · cases hu.2
        exact absurd heq.symm (hunserved _ _ _ hold')
    · rcases serves_put hu' with ⟨rfl, rfl⟩ | ⟨-, hold'⟩
      · cases hu'.2
        exact absurd heq (hunserved _ _ _ hold)
      · exact h.unique _ _ _ _ _ _ hold hold' heq
  · intro id hid
    rw [charged_put]
    exact h.strange id fun j u r' hu => hid j u r' (serves_put_ne (hkeep hu) hu)
  · intro k call hcall hstage
    obtain ⟨u, r', hu, hid, hdone⟩ := h.call k call hcall hstage
    exact ⟨u, r', serves_put_ne (hkeep hu) hu, hid, hdone⟩

theorem Inv.enter (h : Inv w) (hv : w.waiters[i]? = some v) (hnone : v.request = none) :
    Inv (w.put i (v.enter w).1 (v.enter w).2 []) := by
  fun_cases Waiter.enter w v with
  | case8 _ _ _ n hn =>
    -- the ordinal is used up, and it makes no identifier
    obtain ⟨-, rfl⟩ := checkedAdd_eq_some hn
    exact h.early hv hnone rfl rfl (Nat.le_succ _)
  | case9 _ _ _ n hn _ id hid =>
    obtain ⟨-, rfl⟩ := checkedAdd_eq_some hn
    exact h.mint hv hnone (by omega) hid
  | case10 => exact h.early hv hnone (h.fresh i v hv hnone).2.2.2 rfl le_rfl
  | _ => exact h.early hv hnone rfl rfl le_rfl

/-! ## Decisions -/

theorem checkDecision_eq_ok {token : Option String}
    {entry : Pending} (h : w.checkDecision id decision token = .ok entry) :
    w.broker.pending.lookup id = some entry ∧ w.isClosed entry.responder = false := by
  revert h
  fun_cases checkDecision w id decision token with (intro h; cases h)
  | case5 _ hlookup hchecks =>
    rw [Bool.or_eq_true_iff, Bool.or_eq_true_iff, not_or, not_or] at hchecks
    exact ⟨hlookup, Bool.eq_false_of_not_eq_true hchecks.1.2⟩

/-- Only a request that waits can be pending. -/
theorem Position.waits_of_held (h : Position cancelled revoked v true charged answers) :
    Waits v true charged := by
  unfold Position at h
  cases hs : v.stage with rw [hs] at h
  | presenting | ended => exact h.1
  | selecting | retracting => exact h
  | unpolled | recalling | dating | minting => exact h.elim
  | _ => cases h.1

/-- A pending approval has no decision and no dismissal. -/
theorem Inv.of_held (h : Inv w) (hv : w.Serves i v request)
    (hheld : w.held request.approvalId = true) :
    v.decisionAccepted = false ∧ w.charged request.approvalId = 0 ∧
      w.answers request.approvalId = [] := by
  have hp := h.position i v request hv
  rw [hheld] at hp
  have hwaits := hp.waits_of_held
  unfold Waits at hwaits
  rw [Bool.toNat_true] at hwaits
  have haccepted : v.decisionAccepted = false := Bool.toNat_eq_zero.mp (by omega)
  refine ⟨haccepted, by omega, ?_⟩
  rw [← length_eq_zero_iff, (h.mail i v request hv).answered, haccepted]
  rfl

theorem Inv.refuse (h : Inv w) (call : Resolve) {e : ApprovalError} (hstage : call.stage = .refused e) :
    Inv { w with resolves := w.resolves ++ [call] } := by
  have hanswer : ∀ id, call.answer id = none := by
    intro id
    unfold Resolve.answer
    rw [hstage]
  refine h.frame (fun _ _ _ => Iff.rfl) h.fresh rfl le_rfl (fun _ => rfl)
    (fun id => filterMap_concat_of_none (hanswer id)) (fun k call' hcall' hnot => ?_)
    le_rfl le_rfl
  rcases getElem?_concat_some hcall' with hold | ⟨-, rfl⟩
  · exact hold
  · exact absurd hstage (hnot e)

/-- A request that waits is told that a decision was accepted. -/
theorem Position.accept {answers' : List ApprovalDecision}
    (h : Position cancelled revoked v true charged answers) (hlistens : v.stage.listens = true) :
    Position cancelled revoked { v with decisionAccepted := true } false charged answers' := by
  have hwaits := h.waits_of_held
  have hnew : Waits { v with decisionAccepted := true } false charged := by
    unfold Waits at hwaits ⊢
    rw [Bool.toNat_true] at hwaits
    rw [Bool.toNat_true, Bool.toNat_false]
    omega
  unfold Position at h ⊢
  cases hs : v.stage with
  | presenting =>
    rw [hs] at h
    exact ⟨hnew, h.2⟩
  | selecting => exact hnew
  | _ =>
    rw [hs] at hlistens
    cases hlistens

/-- The entry is taken by a call that accepts the decision. -/
theorem Inv.accept {broker : BrokerState} (h : Inv w)
    {entry : Pending} (hlookup : w.broker.pending.lookup id = some entry)
    (hopen : w.isClosed entry.responder = false)
    (hpending : broker.pending = w.broker.pending.erase id)
    (hnext : broker.nextId = w.broker.nextId) :
    Inv { w with
      waiters := w.waiters.modify entry.responder fun v => { v with decisionAccepted := true }
      broker
      resolves := w.resolves ++ [⟨id, decision, entry.responder, .sending⟩] } := by
  obtain ⟨rfl, v, hv, hempty⟩ := h.entry id entry hlookup
  have hheld : w.held entry.request.approvalId = true := by
    rw [held, hlookup]
    rfl
  have hanswers := (h.of_held hv hheld).2.2
  have hlistens : v.stage.listens = true := by
    unfold isClosed at hopen
    rw [hv.1] at hopen
    simpa using hopen
  have hnew : Resolve.answer entry.request.approvalId
      ⟨entry.request.approvalId, decision, entry.responder, .sending⟩ = some decision := if_pos rfl
  have hnone : broker.pending.lookup entry.request.approvalId = none := by
    rw [hpending, AList.lookup_erase]
  have hp := h.position _ _ _ hv
  rw [hheld] at hp
  refine h.change hv rfl rfl hnext (fun id hid => ⟨?_, rfl, ?_⟩) ?_ ⟨?_, fun d hd => ?_, fun hd => ?_⟩
    (fun e he => ?_) fun k call hk hstage => ?_
  · rw [hpending, AList.lookup_erase_ne hid]
  · exact filterMap_concat_of_none (if_neg hid.symm)
  · rw [held, hnone]
    exact hp.accept hlistens
  · rw [answers, filterMap_concat_of_some hnew, show w.resolves.filterMap _ = [] from hanswers]
    rfl
  · cases hempty.symm.trans hd
  · cases hempty.symm.trans hd
  · cases hnone.symm.trans he
  · rcases getElem?_concat_some hk with hold | ⟨-, rfl⟩
    · refine ⟨.inl hold, fun hid hd hl => ?_⟩
      have hmem := mem_answers hold hstage
      rw [hid, hanswers] at hmem
      cases hmem
    · exact ⟨.inr ⟨rfl, rfl⟩, (by simp)⟩

theorem Inv.resolve (h : Inv w) (id : ApprovalId) (decision : ApprovalDecision)
    (token : Option String) : Inv (w.resolve id decision token) := by
  unfold World.resolve
  cases hcheck : w.checkDecision id decision token with
  | error e => exact h.refuse _ rfl
  | ok entry =>
    obtain ⟨hlookup, hopen⟩ := checkDecision_eq_ok hcheck
    refine h.accept hlookup hopen ?_ ?_
    · split <;> rfl
    · split <;> rfl

theorem Inv.answers_of_call (h : Inv w) (hv : w.Serves i v request) {k : Nat} {call : Resolve}
    (hcall : w.resolves[k]? = some call) (hstage : ∀ e, call.stage ≠ .refused e)
    (hid : request.approvalId = call.id) : w.answers request.approvalId = [call.decision] := by
  have hmem : call.decision ∈ w.answers request.approvalId := by
    rw [hid]
    exact mem_answers hcall hstage
  have hle : (w.answers request.approvalId).length ≤ 1 := by
    rw [(h.mail i v request hv).answered]
    exact Bool.toNat_le _
  cases hanswers : w.answers request.approvalId with
  | nil =>
    rw [hanswers] at hmem
    cases hmem
  | cons d rest =>
    rw [hanswers] at hmem hle
    have hrest : rest = [] := eq_nil_of_length_eq_zero (by
      rw [length_cons] at hle
      omega)
    subst hrest
    rw [mem_singleton.mp hmem]

/-- What is left in the mailbox of a request, if it still listens. -/
def leave (decision : ApprovalDecision) (v : Waiter) : Waiter :=
  if v.stage.listens then { v with mailbox := .delivered decision } else v

/-- The position does not depend on the mailbox of a request that listens. -/
theorem Position.leave {held : Bool} (decision : ApprovalDecision)
    (h : Position cancelled revoked v held charged answers) :
    Position cancelled revoked (leave decision v) held charged answers := by
  unfold Approval.leave
  split_ifs with hlistens
  · unfold Position at h ⊢
    cases hs : v.stage with
    | presenting | selecting =>
      rw [hs] at h
      exact h
    | _ =>
      rw [hs] at hlistens
      cases hlistens
  · exact h

/-- **The decision is sent.** -/
theorem Inv.deliver (h : Inv w) {k : Nat} {call : Resolve}
    (hcall : w.resolves[k]? = some call) (hs : call.stage = .sending) :
    Inv { w with
      waiters := w.waiters.modify call.responder (leave call.decision)
      resolves := w.resolves.set k { call with stage := .done } } := by
  have hstage : ∀ e, call.stage ≠ .refused e := by
    rw [hs]
    exact fun _ => nofun
  obtain ⟨v, request, hv, hid, -⟩ := h.call k call hcall hstage
  have hanswers := h.answers_of_call hv hcall hstage hid
  have hsame : ∀ id, (w.resolves.set k { call with stage := .done }).filterMap (Resolve.answer id)
      = w.answers id := by
    refine fun id => filterMap_set_of_eq ?_ hcall
    unfold Resolve.answer
    rw [hs]
  have hmail := h.mail _ _ _ hv
  refine h.change hv rfl ?_ rfl (fun id _ => ⟨rfl, rfl, hsame id⟩) ?_ ?_ (fun entry hlookup => ?_)
    fun k' call' hk' hstage' => ?_
  · unfold leave
    split <;> rfl
  · rw [answers, hsame]
    exact (h.position _ _ _ hv).leave _
  · rw [answers, hsame]
    unfold leave
    split
    · refine ⟨hmail.answered, fun d hd => ?_, nofun⟩
      cases hd
      exact hanswers
    · exact hmail
  · -- an approval that is pending has no decision
    have hheld : w.held request.approvalId = true := by
      rw [held, hlookup]
      rfl
    cases hanswers.symm.trans (h.of_held hv hheld).2.2
  · refine ⟨?_, fun hid' _ hl => ?_⟩
    · rcases getElem?_set_some hk' with ⟨-, rfl⟩ | ⟨-, hold⟩
      · exact .inr ⟨hid.symm, rfl⟩
      · exact .inl hold
    · have hmem := mem_answers (w := { w with resolves := _ }) hk' hstage'
      rw [answers, hsame, hid', hanswers, mem_singleton] at hmem
      rw [hmem]
      revert hl
      unfold leave
      split
      · exact fun _ => rfl
      · exact fun hl => by contradiction

theorem Inv.send (h : Inv w) (k : Nat) : Inv (w.send k) := by
  unfold World.send
  cases hcall : w.resolves[k]? with
  | none => exact h
  | some call =>
    dsimp only
    cases hs : call.stage with
    | refused e | done => exact h
    | sending => exact h.deliver hcall hs

/-! ## Sweeps -/

theorem Position.drain {held : Bool} (h : Position cancelled revoked v held charged answers) :
    Position cancelled revoked v false (charged + held.toNat) answers := by
  have hwaits : Waits v held charged → Waits v false (charged + held.toNat) := by
    unfold Waits
    rw [Bool.toNat_false]
    omega
  cases held with
  | false => exact h
  | true =>
    unfold Position at h ⊢
    cases hs : v.stage with rw [hs] at h
    | presenting | ended => exact ⟨hwaits h.1, h.2⟩
    | selecting | retracting => exact hwaits h
    | unpolled | recalling | dating | minting => exact h.elim
    | _ => cases h.1

/-- A waiter that some entry answers to has a pending approval. -/
theorem Inv.held_of_responder (h : Inv w) {u : Waiter} {j : Nat} (hu : w.waiters[j]? = some u)
    (hany : (w.broker.pending.values.any fun entry => entry.responder = j) = true) :
    ∃ r, w.Serves j u r ∧ w.held r.approvalId = true := by
  obtain ⟨entry, hmem, hresponder⟩ := any_eq_true.mp hany
  obtain ⟨id, hlookup⟩ := Table.mem_values.mp hmem
  obtain ⟨rfl, u', hu', -⟩ := h.entry id entry hlookup
  rw [of_decide_eq_true hresponder] at hu'
  cases hu'.1.symm.trans hu
  refine ⟨entry.request, hu', ?_⟩
  rw [held, hlookup]
  rfl

/-- **Everything is withdrawn**: every entry passes to the sweep. -/
theorem Inv.withdrawAll (h : Inv w) (reason : ApprovalWithdrawal) : Inv (w.withdrawAll reason) := by
  obtain ⟨w', hw'⟩ : ∃ w', w' = w.withdrawAll reason := ⟨_, rfl⟩
  have hcharged : ∀ id, w'.charged id = w.charged id + (w.held id).toNat := by
    intro id
    rw [hw']
    unfold World.charged World.owed World.withdrawAll
    rw [map_append, sum_append, map_singleton, sum_singleton, Table.count_keys,
      Nat.add_right_comm]
    rfl
  have hheld : ∀ id, w'.held id = false := by
    intro id
    rw [hw']
    rfl
  have hanswers : ∀ id, w'.answers id = w.answers id := by
    intro id
    rw [hw']
    rfl
  -- the approval of a waiter whose responder is dropped
  have hself : ∀ {j u r}, w.Serves j u r →
      (w.broker.pending.values.any fun entry => entry.responder = j) = true →
      w.held r.approvalId = true := by
    intro j u r hu hany
    obtain ⟨r', hr', hheld'⟩ := h.held_of_responder hu.1 hany
    cases hu.2.symm.trans hr'.2
    exact hheld'
  rw [← hw']
  refine h.map (g := fun j u =>
      if w.broker.pending.values.any (·.responder = j) then { u with mailbox := .disconnected }
      else u)
    (fun j => ?_) (fun j u _ => ?_) (by rw [hw']; rfl) ?_ ?_ ?_ ?_ ?_ ?_
  · rw [hw']
    exact getElem?_mapIdx
  · split <;> rfl
  · intro j u r hu
    have hp := h.position j u r hu
    rw [hcharged, hw']
    split_ifs with hany
    · rw [hself hu hany] at hp ⊢
      refine Position.drain ?_
      unfold Position at hp ⊢
      cases hs : u.stage with rw [hs] at hp
      | binding | registering | returned => cases hp.1
      | _ => exact hp
    · exact hp.drain
  · intro j u r hu
    rw [hanswers]
    split_ifs with hany
    · have haccepted := (h.of_held hu (hself hu hany)).1
      exact ⟨(h.mail j u r hu).answered, nofun, fun _ => haccepted⟩
    · exact h.mail j u r hu
  · intro j u hu hnone
    refine if_neg fun hany => ?_
    obtain ⟨r, hr, -⟩ := h.held_of_responder hu hany
    cases hnone.symm.trans hr.2
  · intro id entry hlookup
    rw [hw'] at hlookup
    cases hlookup
  · intro id hid
    have hnot : w.held id = false := by
      refine Bool.eq_false_of_not_eq_true fun hheld => ?_
      obtain ⟨entry, hlookup⟩ := Option.isSome_iff_exists.mp hheld
      obtain ⟨heq, u, hu, -⟩ := h.entry id entry hlookup
      exact hid _ _ _ hu heq
    rw [hcharged, hanswers, hnot]
    exact h.strange id hid
  · intro k call hcall hstage
    rw [hw'] at hcall
    obtain ⟨u, r, hu, hid, hdone⟩ := h.call k call hcall hstage
    refine ⟨u, r, hu, hid, fun hd hl => ?_⟩
    split at hl
    · -- a pending approval has no decision
      rename_i hany
      have hnil := (h.of_held hu (hself hu hany)).2.2
      rw [h.answers_of_call hu hcall hstage hid] at hnil
      cases hnil
    · rename_i hany
      rw [if_neg hany]
      exact hdone hd hl

theorem owed_set (id : ApprovalId) {sweep : Sweep} (sweep' : Sweep) :
    ∀ {sweeps : List Sweep} {k : Nat}, sweeps[k]? = some sweep →
      ((sweeps.set k sweep').map fun s => s.drained.count id).sum + sweep.drained.count id
        = (sweeps.map fun s => s.drained.count id).sum + sweep'.drained.count id
  | [], _, hk => by cases hk
  | s :: rest, 0, hk => by
    cases hk
    rw [set_cons_zero, map_cons, map_cons, sum_cons, sum_cons]
    omega
  | s :: rest, k + 1, hk => by
    have htail : rest[k]? = some sweep := hk
    have hrest := owed_set id sweep' htail
    rw [set_cons_succ, map_cons, map_cons, sum_cons, sum_cons]
    omega

/-- The sweep goes on: what it owed is now told to the port. -/
theorem Inv.withdrawNext (h : Inv w) (k : Nat) : Inv (w.withdrawNext k) := by
  unfold World.withdrawNext
  cases hk : w.sweeps[k]? with
  | none => exact h
  | some sweep =>
    dsimp only
    split
    · rename_i id rest _ hdrained
      refine h.frame (fun _ _ _ => Iff.rfl) h.fresh rfl le_rfl (fun id' => ?_)
        (fun _ => rfl) (fun _ _ hcall _ => hcall) le_rfl le_rfl
      have hset := owed_set id' { sweep with drained := rest, awaiting := true } hk
      rw [hdrained, count_cons] at hset
      unfold World.charged World.owed World.dismissals
      dsimp only at hset ⊢
      rw [countP_append, countP_singleton, dismisses]
      by_cases heq : id = id'
      · rw [if_pos (beq_iff_eq.mpr heq)] at hset
        rw [if_pos (decide_eq_true heq)]
        omega
      rw [if_neg fun hb => heq (beq_iff_eq.mp hb)] at hset
      rw [if_neg fun hb => heq (of_decide_eq_true hb)]
      omega
    · exact h

theorem Inv.withdrawDone (h : Inv w) (k : Nat) (result : Except PortError Unit) :
    Inv (w.withdrawDone k result) := by
  unfold World.withdrawDone
  cases hk : w.sweeps[k]? with
  | none => exact h
  | some sweep =>
    dsimp only
    split
    · refine h.frame (fun _ _ _ => Iff.rfl) h.fresh rfl le_rfl (fun id => ?_)
        (fun _ => rfl) (fun _ _ hcall _ => hcall) le_rfl le_rfl
      exact congrArg (· + w.dismissals id) (Nat.add_right_cancel (@owed_set id sweep _ _ _ hk))
    · exact h

/-! ## Every step -/

theorem inv_new (timeout : Duration) (now : Timestamp) : Inv (.new timeout now) := by
  have hserves : ∀ {j u r}, ¬ (new timeout now).Serves j u r := by
    intro j u r hu
    cases hu.1
  refine ⟨?_, ?_, ?_, ?_, ?_, ?_, ?_, ?_⟩
  · exact fun _ _ _ hu => (hserves hu).elim
  · exact fun _ _ _ hu => (hserves hu).elim
  · exact fun _ _ hu => by cases hu
  · exact fun _ _ hlookup => by cases hlookup
  · exact fun _ _ _ hu => (hserves hu).elim
  · exact fun _ _ _ _ _ _ hu => (hserves hu).elim
  · exact fun _ _ => ⟨rfl, rfl⟩
  · exact fun _ _ hcall => by cases hcall

/-- A step of one waiter, with a request or before it has one. -/
theorem Inv.waiter {f : Waiter → World} (h : Inv w) (i : Nat)
    (hearly : ∀ v, w.waiters[i]? = some v → v.request = none → Inv (f v))
    (hserves : ∀ v request, w.Serves i v request → Inv (f v)) :
    Inv (match w.waiters[i]? with | none => w | some v => f v) := by
  cases hv : w.waiters[i]? with
  | none => exact h
  | some v =>
    cases hr : v.request with
    | none => exact hearly v hv hr
    | some request => exact hserves v request ⟨hv, hr⟩

theorem Inv.idle (h : Inv w) (hv : w.waiters[i]? = some v) (hnone : v.request = none) :
    Inv (w.put i v w.broker []) :=
  h.early hv hnone (h.fresh i v hv hnone).2.2.2 rfl le_rfl

/-- The broker only forgets decisions, a signal is given or the clock moves. -/
theorem Inv.signal {broker : BrokerState} {now : Timestamp}
    (h : Inv w) (hpending : broker.pending = w.broker.pending)
    (hnext : broker.nextId = w.broker.nextId) (hc : w.cancelled ≤ cancelled)
    (hr : w.revoked ≤ revoked) :
    Inv { w with broker := broker, now := now, cancelled := cancelled, revoked := revoked } :=
  h.frame (fun _ _ _ => Iff.rfl) h.fresh hpending hnext.ge (fun _ => rfl)
    (fun _ => rfl) (fun _ _ hcall _ => hcall) hc hr

/-- Without a request only the future that was never polled can be dropped. -/
theorem drop_none (w : World) (v : Waiter) :
    v.drop w none = ({ v with stage := .dropped }, w.broker) ∨ v.drop w none = (v, w.broker) := by
  unfold Waiter.drop
  split
  · exact .inl rfl
  all_goals first | contradiction | exact .inr rfl

/-- **Every step keeps the account.** -/
theorem Inv.act (h : Inv w) (a : Act) : Inv (w.act a) := by
  cases a with
  | request =>
    refine h.frame (fun j u r => ⟨fun hu => ?_, fun hu => ⟨?_, hu.2⟩⟩) (fun j u hu hn => ?_) rfl
      le_rfl (fun _ => rfl) (fun _ => rfl) (fun _ _ hcall _ => hcall) le_rfl le_rfl
    · rcases getElem?_concat_some hu.1 with hold | ⟨-, rfl⟩
      · exact ⟨hold, hu.2⟩
      · cases hu.2
    · obtain ⟨hlt, -⟩ := List.getElem?_eq_some_iff.mp hu.1
      exact (getElem?_append_left hlt).trans hu.1
    · rcases getElem?_concat_some hu with hold | ⟨-, rfl⟩
      · exact h.fresh j u hold hn
      · exact ⟨rfl, rfl, rfl, rfl⟩
  | poll i =>
    refine h.waiter i (fun v hv hnone => ?_) fun v request hv => ?_
    · rw [hnone]
      exact h.enter hv hnone
    · rw [hv.2]
      exact h.proceed hv
  | bound i result =>
    refine h.waiter i (fun v hv hnone => ?_) fun v request hv => h.bound hv result
    fun_cases Waiter.bound v result with
    | case4 => exact h.idle hv hnone
    | _ => exact h.early hv hnone rfl rfl le_rfl
  | shown i result =>
    refine h.waiter i (fun v _ hnone => ?_) fun v request hv => ?_
    · rw [hnone]
      exact h
    · rw [hv.2]
      exact h.shown hv result
  | dismissed i result =>
    refine h.waiter i (fun v hv hnone => ?_) fun v request hv => h.dismissed hv result
    fun_cases Waiter.dismissed v result with
    | case5 => exact h.idle hv hnone
    | _ => exact h.early hv hnone rfl rfl le_rfl
  | drop i =>
    refine h.waiter i (fun v hv hnone => ?_) fun v request hv => ?_
    · rw [hnone]
      rcases drop_none w v with hdrop | hdrop
      · rw [hdrop]
        exact h.early hv hnone rfl rfl le_rfl
      · rw [hdrop]
        exact h.idle hv hnone
    · rw [hv.2]
      exact h.drop hv
  | resolve id decision token => exact h.resolve id decision token
  | send k => exact h.send k
  | withdrawAll reason => exact h.withdrawAll reason
  | withdrawNext k => exact h.withdrawNext k
  | withdrawDone k result => exact h.withdrawDone k result
  | forget sessionId toolName =>
    refine h.signal ?_ ?_ le_rfl le_rfl
    all_goals
      unfold BrokerState.forget
      dsimp only
      repeat' split
      all_goals rfl
  | forgetSession => exact h.signal rfl rfl le_rfl le_rfl
  | cancel token => exact h.signal rfl rfl (le_update_self_iff.mpr le_top) le_rfl
  | revoke signal => exact h.signal rfl rfl le_rfl (le_update_self_iff.mpr le_top)
  | advance now =>
    change Inv (if w.now ≤ now then { w with now := now } else w)
    split
    · exact h.signal rfl rfl le_rfl le_rfl
    · exact h

end GtaClaw.Approval
