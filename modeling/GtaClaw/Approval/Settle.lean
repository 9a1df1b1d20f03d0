import GtaClaw.Approval.Steps

/-!
# Every prompt is settled once

The account of `Account.lean` holds in every reachable state, and from it the
dismissals and the accepted decisions of an approval can be read off. What a request
returns depends on its own course too: `Moves` says how one step can change a
waiter, and from it follows what ended its wait.

Two things can come between an accepted decision and the request that waits for it.
The deadline can pass after the decision was accepted and before it is sent, so that
the poll of the receiver finds nothing yet: `Overtaken`. And the port can fail.
-/

namespace GtaClaw.Approval

open Lib GtaClaw.Runtime Channel Waiter World

/-! ## The course of a request -/

/-- The port reports a failure to this request. -/
def PortFails (i : Nat) : Act → Prop
  | .shown j (.error _) => j = i
  | .dismissed j (.error _) => j = i
  | _ => False

/-- The request is about to notice its deadline although a decision was accepted. -/
def Overtaken (i : Nat) (w : World) (a : Act) : Prop :=
  a = .poll i ∧ ∃ v request, w.Serves i v request ∧ v.stage = .selecting .deadline ∧
    request.expiresAt ≤ w.now ∧ v.decisionAccepted = true

/-- The wait is over. -/
def Stage.closes : Stage → Bool
  | .ended => true
  | .dismissing _ => true
  | .withdrawing _ => true
  | .returned _ => true
  | .dropped => true
  | _ => false

/-- What one step can do to a waiter. -/
inductive Moves (w : World) (i : Nat) (a : Act) (v : Waiter) : Waiter → Prop where
  | stay : Moves w i a v v
  | accept (hlistens : v.stage.listens = true) : Moves w i a v { v with decisionAccepted := true }
  | post (mailbox : Mailbox) : Moves w i a v { v with mailbox := mailbox }
  | go {u : Waiter} (hending : u.ending = v.ending)
      (haccepted : u.decisionAccepted = v.decisionAccepted)
      (hcloses : v.stage.closes = true → u.stage.closes = true)
      (hfails : ∀ e, u.stage = .returned (.error (.port e)) → v.stage = .binding ∨ PortFails i a) :
      Moves w i a v u
  | endWait {request : ApprovalRequest} (arm : Arm) (ha : a = .poll i)
      (hrequest : v.request = some request) (hstage : v.stage = .selecting arm)
      (hdeadline : arm = .deadline → request.expiresAt ≤ w.now) :
      Moves w i a v { v with stage := .ended, ending := some arm }

section Course

variable {w : World} {i : Nat} {a : Act} {v u : Waiter} {j : Nat} {result : Except PortError Unit}
  {request : ApprovalRequest} {stage : Stage}

/-- A step from a stage before the end of the wait that does not fail. -/
theorem Moves.onward {request : Option ApprovalRequest} {presented : Bool} {before : Stage}
    (hs : v.stage = before) (hopen : before.closes = false)
    (hfine : ∀ e, stage ≠ .returned (.error (.port e))) :
    Moves w i a v { v with stage := stage, request := request, presented := presented } := by
  refine .go rfl rfl (fun h => ?_) fun e he => absurd he (hfine e)
  rw [hs, hopen] at h
  cases h

/-- A step after the end of the wait that does not fail. -/
theorem Moves.close (hcloses : stage.closes = true)
    (hfine : ∀ e, stage ≠ .returned (.error (.port e))) : Moves w i a v { v with stage := stage } :=
  .go rfl rfl (fun _ => hcloses) fun e he => absurd he (hfine e)

theorem enter_moves : Moves w i a v (v.enter w).1 := by
  fun_cases Waiter.enter w v with
  | case1 hs | case2 hs | case3 hs | case4 hs | case5 hs | case6 hs =>
    exact .onward hs rfl (by simp)
  | case7 _ _ hs | case8 _ _ hs | case9 _ _ hs => exact .onward hs rfl (by simp)
  | case10 => exact .stay

theorem proceed_moves (hrequest : v.request = some request) :
    Moves w i (.poll i) v (v.proceed w i request).1 := by
  fun_cases Waiter.proceed w i v request with
  | case1 hs | case3 _ _ hs | case5 hs | case7 hs | case8 _ hs | case10 hs | case12 hs
    | case16 _ hs => exact .onward hs rfl (by simp)
  | case4 hs => exact .endWait .cancel rfl hrequest hs (by simp)
  | case6 hs => exact .endWait .revoked rfl hrequest hs (by simp)
  | case9 hs => exact .endWait .receiver rfl hrequest hs (by simp)
  | case11 hs hexpired => exact .endWait .deadline rfl hrequest hs fun _ => hexpired
  | case13 | case14 | case15 | case17 | case18 => exact .close rfl (by simp)
  | case2 | case19 => exact .stay

/-- Where a waiter comes from: it has just arrived, or it has moved. -/
def Comes (w : World) (i : Nat) (a : Act) (u : Waiter) : Prop :=
  (u.ending = none ∧ u.stage = .unpolled) ∨ ∃ v, w.waiters[i]? = some v ∧ Moves w i a v u

theorem comes_same (h : w.waiters[i]? = some u) : Comes w i a u := .inr ⟨u, h, .stay⟩

theorem comes_put {v' : Waiter} {broker : BrokerState} {calls : List PortCall}
    (hv : w.waiters[j]? = some v) (hmoves : j = i → Moves w i a v v')
    (hu : (w.put j v' broker calls).waiters[i]? = some u) : Comes w i a u := by
  rcases getElem?_set_some hu with ⟨rfl, rfl⟩ | ⟨-, hold⟩
  · exact .inr ⟨v, hv, hmoves rfl⟩
  · exact comes_same hold

theorem drop_moves (request : Option ApprovalRequest) : Moves w i a v (v.drop w request).1 := by
  fun_cases Waiter.drop w v request with
  | case1 | case4 | case5 => exact .close rfl (by simp)
  | case2 _ hs | case3 _ hs => exact .onward hs rfl (by simp)
  | case6 => exact .stay

theorem comes_waiter {f : Waiter → World}
    (hf : ∀ v, w.waiters[j]? = some v → (f v).waiters[i]? = some u → Comes w i a u)
    (hu : (match w.waiters[j]? with | none => w | some v => f v).waiters[i]? = some u) :
    Comes w i a u := by
  cases hv : w.waiters[j]? with rw [hv] at hu
  | none => exact comes_same hu
  | some v => exact hf v hv hu

theorem withdrawNext_waiters (w : World) (k : Nat) : (w.withdrawNext k).waiters = w.waiters := by
  fun_cases withdrawNext w k with
  | _ => rfl

theorem withdrawDone_waiters (w : World) (k : Nat) (result : Except PortError Unit) :
    (w.withdrawDone k result).waiters = w.waiters := by
  fun_cases withdrawDone w k result with
  | _ => rfl

theorem comes_act (hu : (w.act a).waiters[i]? = some u) : Comes w i a u := by
  cases a with
  | request =>
    rcases getElem?_concat_some hu with hold | ⟨-, rfl⟩
    · exact comes_same hold
    · exact .inl ⟨rfl, rfl⟩
  | poll j =>
    refine comes_waiter (fun v hv hu => ?_) hu
    cases hr : v.request with rw [hr] at hu
    | none => exact comes_put hv (fun _ => enter_moves) hu
    | some request =>
      refine comes_put hv (fun heq => ?_) hu
      subst heq
      exact proceed_moves hr
  | bound j result =>
    refine comes_waiter (fun v hv hu => comes_put hv (fun _ => ?_) hu) hu
    fun_cases Waiter.bound v result with
    | case1 _ _ hs | case2 _ _ hs => exact .go rfl rfl (fun _ => rfl) fun _ _ => .inl hs
    | case3 _ _ hs => exact .onward hs rfl (by simp)
    | case4 => exact .stay
  | shown j result =>
    refine comes_waiter (fun v hv hu => ?_) hu
    cases hr : v.request with rw [hr] at hu
    | none => exact comes_same hu
    | some request =>
      refine comes_put hv (fun heq => ?_) hu
      subst heq
      split
      case h_1 hs =>
        split
        · exact .onward hs rfl (by simp)
        · exact .go rfl rfl (fun _ => rfl) fun _ _ => .inr rfl
      case h_2 => exact .stay
  | dismissed j result =>
    refine comes_waiter (fun v hv hu => comes_put hv (fun heq => ?_) hu) hu
    subst heq
    fun_cases Waiter.dismissed v result with
    | case1 | case3 => exact .go rfl rfl (fun _ => rfl) fun _ _ => .inr rfl
    | case2 | case4 => exact .close rfl (by simp)
    | case5 => exact .stay
  | drop j => exact comes_waiter (fun v hv hu => comes_put hv (fun _ => drop_moves v.request) hu) hu
  | resolve id decision token =>
    -- only a waiter that listens is told of a decision
    dsimp only [act, resolve] at hu
    cases hcheck : w.checkDecision id decision token with rw [hcheck] at hu
    | error e => exact comes_same hu
    | ok entry =>
      have hopen := (checkDecision_eq_ok hcheck).2
      rw [getElem?_modify_waiters, Option.map_eq_some_iff] at hu
      obtain ⟨v, hv, rfl⟩ := hu
      refine .inr ⟨v, hv, ?_⟩
      unfold changeAt
      split
      case isTrue heq =>
        refine .accept ?_
        rw [isClosed, heq, hv] at hopen
        exact Bool.not_eq_eq_eq_not.mp hopen
      case isFalse => exact .stay
  | send k =>
    dsimp only [act, send] at hu
    cases hcall : w.resolves[k]? with rw [hcall] at hu
    | none => exact comes_same hu
    | some call =>
      dsimp only at hu
      split at hu
      · rw [getElem?_modify_waiters, Option.map_eq_some_iff] at hu
        obtain ⟨v, hv, rfl⟩ := hu
        refine .inr ⟨v, hv, ?_⟩
        unfold changeAt
        split
        · dsimp only
          split
          · exact .post _
          · exact .stay
        · exact .stay
      · exact comes_same hu
  | withdrawAll reason =>
    dsimp only [act, withdrawAll] at hu
    rw [List.getElem?_mapIdx, Option.map_eq_some_iff] at hu
    obtain ⟨v, hv, rfl⟩ := hu
    refine .inr ⟨v, hv, ?_⟩
    split
    · exact .post _
    · exact .stay
  | withdrawNext k => exact comes_same (withdrawNext_waiters w k ▸ hu)
  | withdrawDone k result => exact comes_same (withdrawDone_waiters w k result ▸ hu)
  | forget | forgetSession | cancel | revoke => exact comes_same hu
  | advance now =>
    change (if w.now ≤ now then { w with now := now } else w).waiters[i]? = some u at hu
    split at hu
    · exact comes_same hu
    · exact comes_same hu

/-- Nothing ends the wait before the wait, and a deadline ends it only when no decision
was accepted. -/
structure Punctual (v : Waiter) : Prop where
  closes : v.ending ≠ none → v.stage.closes = true
  deadline : v.ending = some .deadline → v.decisionAccepted = false

theorem not_listens_of_closes (h : stage.closes = true) : stage.listens = false := by
  cases stage with
  | ended | dismissing | withdrawing | returned | dropped => rfl
  | _ => cases h

theorem Punctual.moves (h : Punctual v) (hv : w.waiters[i]? = some v) (hmoves : Moves w i a v u)
    (hok : ¬Overtaken i w a) : Punctual u := by
  cases hmoves with
  | stay => exact h
  | accept hlistens =>
    -- what ended the wait would have taken the listener away
    have hnone : v.ending = none := by
      by_contra hne
      rw [not_listens_of_closes (h.closes hne)] at hlistens
      cases hlistens
    exact ⟨h.closes, fun hdeadline => by cases hnone.symm.trans hdeadline⟩
  | post mailbox => exact ⟨h.closes, h.deadline⟩
  | go hending haccepted hcloses _ =>
    refine ⟨fun hne => ?_, fun hdeadline => ?_⟩
    · rw [hending] at hne
      exact hcloses (h.closes hne)
    · rw [haccepted]
      exact h.deadline (hending.symm.trans hdeadline)
  | endWait arm ha hrequest hstage hdeadline =>
    refine ⟨fun _ => rfl, fun hend => ?_⟩
    cases hend
    by_contra hne
    exact hok ⟨ha, v, _, ⟨hv, hrequest⟩, hstage, hdeadline rfl, Bool.not_eq_false _ ▸ hne⟩

/-- The port failed no request whose decision was accepted. -/
def Spared (v : Waiter) : Prop :=
  ∀ e, v.stage = .returned (.error (.port e)) → v.decisionAccepted = false

end Course

/-! ## Runs -/

section Runs

variable {timeout : Duration} {now : Timestamp} {acts : List Act} {i : Nat} {v : Waiter}

theorem inv_after : Inv (after step (.new timeout now) acts) :=
  after_inv (fun _ a h _ => h.act a) acts _ (inv_new timeout now) (along_true acts _)

theorem new_no_waiter : (new timeout now).waiters[i]? ≠ some v := by
  exact Option.some_ne_none v |>.symm

theorem punctual_after (hrun : Along step (fun w a => ¬Overtaken i w a) (.new timeout now) acts)
    (hv : (after step (.new timeout now) acts).waiters[i]? = some v) : Punctual v := by
  refine after_inv (I := fun w => ∀ v, w.waiters[i]? = some v → Punctual v) ?_ acts _
    (fun _ h => absurd h new_no_waiter) hrun v hv
  intro w a h hok u hu
  rcases comes_act hu with ⟨hending, -⟩ | ⟨v, hv, hmoves⟩
  · exact ⟨fun hne => absurd hending hne, fun hdeadline => by cases hending.symm.trans hdeadline⟩
  · exact (h v hv).moves hv hmoves hok

theorem spared_after (hrun : Along step (fun _ a => ¬PortFails i a) (.new timeout now) acts)
    (hv : (after step (.new timeout now) acts).waiters[i]? = some v) : Spared v := by
  refine (after_inv (I := fun w => Inv w ∧ ∀ v, w.waiters[i]? = some v → Spared v) ?_ acts _
    ⟨inv_new timeout now, fun _ h => absurd h new_no_waiter⟩ hrun).2 v hv
  intro w a h hok
  refine ⟨h.1.act a, fun u hu => ?_⟩
  rcases comes_act hu with ⟨-, hstage⟩ | ⟨v, hv, hmoves⟩
  · intro e he
    cases hstage.symm.trans he
  · have hspared := h.2 v hv
    cases hmoves with
    | stay | post mailbox => exact hspared
    | accept hlistens =>
      intro e he
      rw [show v.stage = _ from he] at hlistens
      cases hlistens
    | go _ haccepted _ hfails =>
      intro e he
      rw [haccepted]
      rcases hfails e he with hbinding | hport
      · cases hr : v.request with
        | none => exact (h.1.fresh i v hv hr).1
        | some request =>
          have hp := h.1.position i v request ⟨hv, hr⟩
          unfold Position at hp
          rw [hbinding] at hp
          exact hp.2.1
      · exact absurd hport hok
    | endWait => exact fun e he => by cases he

end Runs

/-! ## What the account says -/

/-- The call of `request` has returned, or its future was dropped. -/
def Stage.over : Stage → Bool
  | .returned _ => true
  | .dropped => true
  | _ => false

section Read

variable {w : World} {i : Nat} {v : Waiter} {request : ApprovalRequest}

theorem Inv.charged_le (h : Inv w) (hv : w.Serves i v request) :
    w.charged request.approvalId ≤ 1 := by
  have hp := h.position i v request hv
  unfold Position at hp
  split at hp
  case h_1 | h_2 | h_3 | h_4 => exact hp.elim
  case h_5 | h_6 =>
    rw [hp.2.2.1]
    omega
  case h_7 | h_9 => exact Nat.le.intro ((Nat.add_comm _ _).trans hp.1)
  case h_8 | h_10 => exact Nat.le.intro ((Nat.add_comm _ _).trans hp)
  case h_11 => exact Nat.le.intro ((Nat.add_comm _ _).trans hp.2.1)
  case h_12 => exact Nat.le.intro ((Nat.add_comm _ _).trans hp.2)
  case h_13 | h_14 => omega
  case h_15 =>
    cases hp.2 with
    | decided _ hcharged | withdrawn _ hcharged => omega
    | failed hcharged _ => exact hcharged
  case h_16 => omega

theorem Inv.answers_le (h : Inv w) (id : ApprovalId) : (w.answers id).length ≤ 1 := by
  by_cases hserved : ∃ i v request, w.Serves i v request ∧ request.approvalId = id
  · obtain ⟨i, v, request, hv, rfl⟩ := hserved
    rw [(h.mail i v request hv).answered]
    exact Bool.toNat_le v.decisionAccepted
  have hnone := h.strange id fun i v request hv heq => hserved ⟨i, v, request, hv, heq⟩
  rw [hnone.2]
  exact Nat.zero_le 1

theorem Inv.accepted (h : Inv w) (hv : w.Serves i v request) {decision : ApprovalDecision}
    (hanswers : w.answers request.approvalId = [decision]) : v.decisionAccepted = true := by
  have hlength := (h.mail i v request hv).answered
  rw [hanswers] at hlength
  cases haccepted : v.decisionAccepted with
  | false =>
    rw [haccepted] at hlength
    cases hlength
  | true => rfl

/-! ## The decision is returned -/

/-- The request's own steps, with a port that does not fail it. -/
def Own (i : Nat) (a : Act) : Prop :=
  a = .poll i ∨ a = .shown i (.ok ()) ∨ a = .dismissed i (.ok ())

/-- The request's own steps lead it to return this. -/
def Returns (w : World) (i : Nat) (result : Except ApprovalError ApprovalOutcome) : Prop :=
  ∃ own, (∀ a ∈ own, Own i a) ∧
    ∃ u, (after World.step w own).waiters[i]? = some u ∧ u.stage = .returned result

variable {result : Except ApprovalError ApprovalOutcome} {decision : ApprovalDecision}

theorem Returns.here {u : Waiter} (hu : w.waiters[i]? = some u) (hstage : u.stage = .returned result) :
    Returns w i result :=
  ⟨[], fun _ ha => absurd ha List.not_mem_nil, u, hu, hstage⟩

theorem Returns.step {a : Act} (ha : Own i a) (h : Returns (w.act a) i result) :
    Returns w i result := by
  obtain ⟨own, hown, hreturned⟩ := h
  exact ⟨a :: own, List.forall_mem_cons.mpr ⟨ha, hown⟩, hreturned⟩

theorem poll_eq (hv : w.Serves i v request) :
    w.act (.poll i) = w.put i (v.proceed w i request).1 (v.proceed w i request).2.1
      (v.proceed w i request).2.2 := by
  change w.poll i = _
  unfold poll
  rw [hv.1]
  dsimp only
  rw [hv.2]

theorem shown_eq (hv : w.Serves i v request) (result : Except PortError Unit) :
    w.act (.shown i result)
      = w.put i (v.shown w request result).1 (v.shown w request result).2 [] := by
  change w.shown i result = _
  unfold World.shown
  rw [hv.1]
  dsimp only
  rw [hv.2]

theorem returns_settling (hv : w.Serves i v request) (hstage : v.stage = .settling decision) :
    Returns w i (.ok (.decided decision false)) := by
  refine .step (a := .dismissed i (.ok ())) (.inr (.inr rfl)) ?_
  have hdismissed : v.dismissed (.ok ())
      = { v with stage := .returned (.ok (.decided decision false)) } := by
    unfold Waiter.dismissed
    rw [hstage]
  have hact : w.act (.dismissed i (.ok ())) = w.put i (v.dismissed (.ok ())) w.broker [] := by
    change w.dismissed i (.ok ()) = _
    unfold World.dismissed
    rw [hv.1]
  have hnext : (w.put i { v with stage := .returned (.ok (.decided decision false)) } w.broker
      []).Serves i _ request := serves_put_self hv.1 hv.2
  rw [hact, hdismissed]
  exact .here hnext.1 rfl

/-- Nothing ends the wait, and the decision is in the mailbox. -/
structure Answered (w : World) (v : Waiter) (decision : ApprovalDecision) : Prop where
  cancel : w.cancelled v.cancel = false
  revoked : v.authority.any (·.isRevoked w.revoked) = false
  mail : v.mailbox = .delivered decision

section

variable (hv : w.Serves i v request) (h : Answered w v decision)
include hv h

theorem returns_receiver (hstage : v.stage = .selecting .receiver) :
    Returns w i (.ok (.decided decision false)) := by
  refine .step (a := .poll i) (.inl rfl) ?_
  rw [poll_eq hv, proceed, hstage, h.mail]
  exact returns_settling (serves_put_self hv.1 hv.2) rfl

theorem returns_revoked (hstage : v.stage = .selecting .revoked) :
    Returns w i (.ok (.decided decision false)) := by
  refine .step (a := .poll i) (.inl rfl) ?_
  rw [poll_eq hv, proceed, hstage, h.revoked]
  exact returns_receiver (serves_put_self hv.1 hv.2) { h with } rfl

theorem returns_cancel (hstage : v.stage = .selecting .cancel) :
    Returns w i (.ok (.decided decision false)) := by
  refine .step (a := .poll i) (.inl rfl) ?_
  rw [poll_eq hv, proceed, hstage, h.cancel]
  exact returns_revoked (serves_put_self hv.1 hv.2) { h with } rfl

end

/-- The future of the request was dropped. -/
def Stage.gone : Stage → Bool
  | .retracting => true
  | .abandoning _ => true
  | .dropped => true
  | _ => false

section

variable (h : Inv w) (hv : w.Serves i v request)
  (hanswers : w.answers request.approvalId = [decision])
include h hv hanswers

/-- A request that has returned, with its decision accepted and nothing in between. -/
theorem Inv.returned_decided (hended : ¬Ended w.cancelled w.revoked v) (hspared : Spared v)
    (hstage : v.stage = .returned result) : result = .ok (.decided decision false) := by
  have hp := h.position i v request hv
  unfold Position at hp
  rw [hstage] at hp
  cases hp.2 with
  | decided hdecided _ =>
    cases hdecided.symm.trans hanswers
    rfl
  | withdrawn hwithdrawn _ => exact absurd hwithdrawn hended
  | failed => cases (h.accepted hv hanswers).symm.trans (hspared _ hstage)

/-- Wherever the request is, its own steps bring it to return the decision. -/
theorem Inv.returns (hmail : v.stage.listens = true → v.mailbox = .delivered decision)
    (hcancel : w.cancelled v.cancel = false)
    (hrevoked : v.authority.any (·.isRevoked w.revoked) = false)
    (hended : ¬Ended w.cancelled w.revoked v) (hspared : Spared v)
    (hgone : v.stage.gone = false) (htime : ¬Overtaken i w (.poll i)) :
    Returns w i (.ok (.decided decision false)) := by
  have haccepted := h.accepted hv hanswers
  have hp := h.position i v request hv
  unfold Position at hp
  cases hs : v.stage with
  | unpolled | recalling | dating | minting =>
    rw [hs] at hp
    exact hp.elim
  | binding | registering =>
    rw [hs] at hp
    cases haccepted.symm.trans hp.2.1
  | presenting =>
    rw [hs] at hmail
    refine .step (a := .shown i (.ok ())) (.inr (.inl rfl)) ?_
    rw [shown_eq hv, Waiter.shown, hs]
    exact returns_cancel (serves_put_self hv.1 hv.2) ⟨hcancel, hrevoked, hmail rfl⟩ rfl
  | selecting arm =>
    rw [hs] at hmail
    cases arm with
    | cancel => exact returns_cancel hv ⟨hcancel, hrevoked, hmail rfl⟩ hs
    | revoked => exact returns_revoked hv ⟨hcancel, hrevoked, hmail rfl⟩ hs
    | receiver => exact returns_receiver hv ⟨hcancel, hrevoked, hmail rfl⟩ hs
    | deadline =>
      have htime : ¬request.expiresAt ≤ w.now :=
        fun hexpired => htime ⟨rfl, v, request, hv, hs, hexpired, haccepted⟩
      refine .step (a := .poll i) (.inl rfl) ?_
      rw [poll_eq hv, Waiter.proceed, hs, if_neg htime]
      exact returns_cancel (serves_put_self hv.1 hv.2) ⟨hcancel, hrevoked, hmail rfl⟩ rfl
  | ended =>
    rw [hs] at hp
    exact absurd hp.2 hended
  | dismissing | withdrawing =>
    rw [hs] at hp
    exact absurd hp.2.2 hended
  | settling =>
    rw [hs] at hp
    cases hp.2.2.symm.trans hanswers
    exact returns_settling hv hs
  | retracting | abandoning | dropped =>
    rw [hs] at hgone
    cases hgone
  | returned result =>
    cases h.returned_decided hv hanswers hended hspared hs
    exact .here hv.1 hs

end

end Read

theorem kept_of_done {call : Resolve} (h : call.stage = .done) (e : ApprovalError) :
    call.stage ≠ .refused e := by
  rw [h]
  exact ResolveStage.noConfusion

/-- **Every prompt is settled once.** In every state that any interleaving of requests,
decisions, sweeps, signals, drops and the clock leads to:
a presented approval was dismissed at most once, and once its request is over it was
dismissed exactly once or one sweep is still to do it; at most one decision for an
approval was accepted; a request that timed out at its deadline, without overtaking a
decision, had none; and a decision that was accepted is what the request returns, unless
the request was cancelled, revoked or dropped, overtook the decision at its deadline or
was failed by the port. -/
theorem approvals_settle_once (timeout : Duration) (now : Timestamp) (acts : List Act) (w : World)
    (hw : w = after World.step (.new timeout now) acts) :
    (∀ i v request, w.Serves i v request → v.presented = true →
      w.dismissals request.approvalId ≤ 1
        ∧ (v.stage.over = true →
          w.owed request.approvalId + w.dismissals request.approvalId = 1))
      ∧ (∀ id, (w.resolves.countP fun call => call.id = id ∧ call.stage = .done) ≤ 1)
      ∧ (∀ i v request, w.Serves i v request →
        Along World.step (fun w a => ¬Overtaken i w a) (.new timeout now) acts →
        v.stage = .returned (.ok (.withdrawn .timedOut)) → v.ending = some .deadline →
          ∀ call ∈ w.resolves, call.stage = .done → call.id ≠ request.approvalId)
      ∧ ∀ i v request call, w.Serves i v request → call ∈ w.resolves → call.stage = .done →
        call.id = request.approvalId →
        w.cancelled v.cancel = false → v.authority.any (·.isRevoked w.revoked) = false →
        v.stage.gone = false →
        Along World.step (fun w a => ¬Overtaken i w a) (.new timeout now) acts →
        Along World.step (fun _ a => ¬PortFails i a) (.new timeout now) acts →
          (∀ result, v.stage = .returned result → result = .ok (.decided call.decision false))
            ∧ (¬Overtaken i w (.poll i) → Returns w i (.ok (.decided call.decision false))) := by
  have h : Inv w := hw ▸ inv_after
  refine ⟨fun i v request hv hpresented => ⟨?_, fun hover => ?_⟩, fun id => ?_, ?_, ?_⟩
  · exact (Nat.le_add_left _ _).trans (h.charged_le hv)
  · have hp := h.position i v request hv
    unfold Position at hp
    cases hs : v.stage with
    | returned result =>
      rw [hs] at hp
      cases hp.2 with
      | decided _ hcharged | withdrawn _ hcharged => exact hcharged
      | failed _ hcharged => exact hcharged hpresented
    | dropped =>
      rw [hs] at hp
      exact hp.2
    | _ =>
      rw [hs] at hover
      cases hover
  · -- every call that returned `Ok` has its decision among the answers
    refine Nat.le_trans (List.countP_mono_left fun call _ hcall => ?_)
      ((Nat.le_of_eq (List.length_filterMap_eq_countP ..).symm).trans (h.answers_le id))
    have hdone := of_decide_eq_true hcall
    unfold Resolve.answer
    rw [hdone.2]
    rw [if_pos hdone.1]
    rfl
  · intro i v request hv hrun _ hending call hmem hdone hid
    obtain ⟨k, hcall⟩ := List.mem_iff_getElem?.mp hmem
    have hanswers := h.answers_of_call hv hcall (kept_of_done hdone) hid.symm
    have hpunctual := punctual_after hrun (hw ▸ hv.1)
    cases (h.accepted hv hanswers).symm.trans (hpunctual.deadline hending)
  · intro i v request call hv hmem hdone hid hcancel hrevoked hgone hrun hport
    obtain ⟨k, hcall⟩ := List.mem_iff_getElem?.mp hmem
    have hanswers := h.answers_of_call hv hcall (kept_of_done hdone) hid.symm
    have haccepted := h.accepted hv hanswers
    have hpunctual := punctual_after hrun (hw ▸ hv.1)
    have hended : ¬Ended w.cancelled w.revoked v := by
      rintro ⟨arm, hending, hcause⟩
      cases arm with
      | cancel => cases hcancel.symm.trans hcause
      | revoked => cases hrevoked.symm.trans hcause
      | receiver => cases haccepted.symm.trans hcause
      | deadline => cases haccepted.symm.trans (hpunctual.deadline hending)
    have hspared : Spared v := spared_after hport (hw ▸ hv.1)
    refine ⟨fun result hs => h.returned_decided hv hanswers hended hspared hs, fun htime => ?_⟩
    refine h.returns hv hanswers (fun hlistens => ?_) hcancel hrevoked hended hspared hgone htime
    -- the call was made to this very request
    obtain ⟨u, r, hu, hr, hmail⟩ := h.call k call hcall (kept_of_done hdone)
    have hi := h.unique _ _ _ _ _ _ hu hv (hr.trans hid)
    rw [hi] at hu
    cases hu.1.symm.trans hv.1
    exact hmail hdone hlistens

section Concrete

def shellTicket : ApprovalTicket :=
  ⟨⟨"session", by decide +kernel⟩, 1, ⟨"call", by decide +kernel⟩, "shell", "ls"⟩

def firstId : ApprovalId := ⟨"approval-1", by decide +kernel⟩

def approveOnce : ApprovalDecision := ⟨.approve, .once⟩

/-- One request, up to where it is presented. -/
def presentedRun : List Act :=
  [.request shellTicket none none 0, .poll 0, .poll 0, .poll 0, .poll 0, .poll 0, .poll 0,
    .shown 0 (.ok ())]

theorem not_overtaken {w : World} {i : Nat} {a : Act}
    (h : ((w.waiters[i]?).all fun v => v.stage ≠ .selecting .deadline) = true) :
    ¬Overtaken i w a := by
  rintro ⟨-, v, request, hv, hstage, -⟩
  rw [hv.1] at h
  exact of_decide_eq_true h hstage

/-- What can be compared of a request: its approval, where it stands and what ended it. -/
def Waiter.summary (v : Waiter) : Option ApprovalId × Stage × Option Ending :=
  (v.request.map (·.approvalId), v.stage, v.ending)

def Resolve.summary (call : Resolve) : ApprovalId × ApprovalDecision × ResolveStage :=
  (call.id, call.decision, call.stage)

/-- A request that stands like this, and what else is known of it. -/
theorem exists_serves {w : World} {i : Nat} {id : ApprovalId} {stage : Stage} {ending : Option Ending}
    {p : Waiter → Prop} [DecidablePred p]
    (h : ((w.waiters[i]?).any fun v => v.summary = (some id, stage, ending) ∧ p v) = true) :
    ∃ v request, w.Serves i v request ∧ request.approvalId = id ∧ v.stage = stage ∧ p v := by
  obtain ⟨v, hv, hstands⟩ := (Option.any_eq_true _ _).mp h
  obtain ⟨hsummary, hp⟩ := of_decide_eq_true hstands
  obtain ⟨request, hrequest, hid⟩ := Option.map_eq_some_iff.mp (congrArg Prod.fst hsummary)
  exact ⟨v, request, ⟨hv, hrequest⟩, hid, congrArg (fun s => s.2.1) hsummary, hp⟩

/-- The operator has approved; the request has not been polled since. -/
def approvedRun : List Act := presentedRun ++ [.resolve firstId approveOnce none, .send 0]

theorem approvals_settle_once_approved :
    Returns (after World.step (.new ⟨10⟩ ⟨0⟩) approvedRun) 0 (.ok (.decided approveOnce false)) := by
  obtain ⟨-, -, -, hdecided⟩ := approvals_settle_once ⟨10⟩ ⟨0⟩ approvedRun _ rfl
  obtain ⟨v, request, hv, hid, hstage, hcancel, hrevoked⟩ := exists_serves
    (show ((after World.step (.new ⟨10⟩ ⟨0⟩) approvedRun).waiters[0]?).any (fun v =>
      v.summary = (some firstId, .selecting .cancel, none)
        ∧ (after World.step (.new ⟨10⟩ ⟨0⟩) approvedRun).cancelled v.cancel = false
        ∧ v.authority.any (·.isRevoked (after World.step (.new ⟨10⟩ ⟨0⟩) approvedRun).revoked) = false)
      = true by decide +kernel)
  obtain ⟨call, hcall, hcallSummary⟩ := List.mem_map.mp
    (show (firstId, approveOnce, ResolveStage.done)
        ∈ (after World.step (.new ⟨10⟩ ⟨0⟩) approvedRun).resolves.map Resolve.summary by decide +kernel)
  have hcallId : call.id = firstId := congrArg Prod.fst hcallSummary
  have hcallDone : call.stage = .done := congrArg (fun s => s.2.2) hcallSummary
  have hcallDecision : call.decision = approveOnce := congrArg (fun s => s.2.1) hcallSummary
  rw [← hcallDecision]
  refine (hdecided 0 v request call hv hcall hcallDone (hcallId.trans hid.symm) hcancel
    hrevoked (by rw [hstage]; rfl) ?_ ?_).2 (not_overtaken (by decide +kernel))
  · refine ⟨?_, ?_, ?_, ?_, ?_, ?_, ?_, ?_, ?_, ?_, trivial⟩ <;> exact not_overtaken (by decide +kernel)
  · exact ⟨id, id, id, id, id, id, id, id, id, id, trivial⟩

/-- The decision is accepted while the request is being polled, and its deadline passes
before the decision is sent. -/
def overtakenRun : List Act :=
  presentedRun ++ [.poll 0, .poll 0, .poll 0, .resolve firstId approveOnce none, .advance ⟨10⟩,
    .poll 0, .poll 0, .poll 0, .send 0, .dismissed 0 (.ok ())]

/-- The request takes the decision up, and the port fails to settle the prompt. -/
def unsettledRun : List Act :=
  approvedRun ++ [.poll 0, .poll 0, .poll 0, .dismissed 0 (.error (.unavailable "closed"))]

/-- An accepted decision is not always returned: the deadline can overtake it, and the port can
fail the request that took it up. Nothing was cancelled, no
authority was there to revoke, and no future was dropped. -/
theorem accepted_decision_not_returned :
    ((after World.step (.new ⟨10⟩ ⟨0⟩) overtakenRun).waiters.map Waiter.summary
        = [(some firstId, .returned (.ok (.withdrawn .timedOut)), some .deadline)]
      ∧ (after World.step (.new ⟨10⟩ ⟨0⟩) overtakenRun).resolves.map Resolve.summary
        = [(firstId, approveOnce, .done)])
      ∧ (after World.step (.new ⟨10⟩ ⟨0⟩) unsettledRun).waiters.map Waiter.summary
        = [(some firstId, .returned (.error (.port (.unavailable "closed"))), none)]
      ∧ (after World.step (.new ⟨10⟩ ⟨0⟩) unsettledRun).resolves.map Resolve.summary
        = [(firstId, approveOnce, .done)] := by
  decide +kernel

end Concrete

/-! ## The reason of a withdrawal -/

section Withdrawn

/-- How many polls away a request whose entry was swept is from returning this. -/
inductive Leaves (reason : ApprovalWithdrawal) : Stage → Nat → Prop where
  | presenting : Leaves reason .presenting 7
  | deadline : Leaves reason (.selecting .deadline) 6
  | cancel : Leaves reason (.selecting .cancel) 5
  | revoked : Leaves reason (.selecting .revoked) 4
  | receiver : Leaves reason (.selecting .receiver) 3
  | ended : Leaves reason .ended 2
  | dismissing : Leaves reason (.dismissing false) 1
  | returned : Leaves reason (.returned (.ok (.withdrawn reason))) 0

/-- The entry of the request was swept, and its responder dropped. -/
def Left (w : World) (i : Nat) (request : ApprovalRequest) (reason : ApprovalWithdrawal)
    (polls : Nat) : Prop :=
  ∃ v, w.Serves i v request ∧ v.mailbox = .disconnected ∧ v.decisionAccepted = false
    ∧ w.held request.approvalId = false ∧ v.reason w = reason ∧ Leaves reason v.stage polls

/-- The request is polled or presented, or the step leaves it alone: its call, its signals and
its entry. -/
def Undisturbed (i : Nat) (id : ApprovalId) (w : World) (a : Act) : Prop :=
  a = .poll i ∨ a = .shown i (.ok ())
    ∨ ((w.act a).waiters[i]? = w.waiters[i]?
      ∧ (∀ v, w.waiters[i]? = some v → v.reason (w.act a) = v.reason w)
      ∧ (w.held id = false → (w.act a).held id = false))

variable {w : World} {i n : Nat} {v : Waiter} {request : ApprovalRequest} {a : Act}
  {reason : ApprovalWithdrawal}

section

variable (h : Left w i request reason n)
include h

theorem Left.poll :
    ∃ k, (n ≤ 6 → k ≤ n - 1) ∧ Left (w.act (.poll i)) i request reason k := by
  obtain ⟨v, hv, hmail, haccepted, hgone, rfl, hleaves⟩ := h
  have hput : ∀ {stage ending broker k}, (broker.pending.lookup request.approvalId).isSome = false →
      Leaves (v.reason w) stage k → (n ≤ 6 → k ≤ n - 1) → ∃ k, (n ≤ 6 → k ≤ n - 1) ∧
        Left (w.put i { v with stage, ending } broker []) i request (v.reason w) k :=
    fun hb hl hk => ⟨_, hk, _, serves_put_self hv.1 hv.2, hmail, haccepted, hb, rfl, hl⟩
  have hstage := hleaves
  rw [poll_eq hv]
  generalize hs : v.stage = stage at hstage
  cases hstage with simp only [proceed, hs]
  | presenting | returned => exact hput hgone hleaves (by omega)
  | deadline | cancel | revoked =>
    split
    · exact hput hgone .ended (by omega)
    · exact hput hgone (by constructor) (by omega)
  | receiver =>
    split
    next hbox => cases hmail.symm.trans hbox
    next => exact hput hgone .ended (by omega)
    next hbox => cases hmail.symm.trans hbox
  | ended =>
    have hnot : (w.broker.discard request.approvalId).1 = false := hgone
    rw [hnot]
    exact hput (by rw [BrokerState.discard, AList.lookup_erase]; rfl) .dismissing (by omega)
  | dismissing =>
    rw [if_neg (by simp [haccepted])]
    exact hput hgone .returned (by omega)

theorem Left.shown :
    ∃ k ≤ 6, Left (w.act (.shown i (.ok ()))) i request reason k := by
  obtain ⟨v, hv, hmail, haccepted, hgone, hreason, hleaves⟩ := h
  have hstage := hleaves
  rw [shown_eq hv]
  generalize hs : v.stage = stage at hstage
  cases hstage with simp only [Waiter.shown, hs]
  | presenting =>
    exact ⟨5, by omega, _, serves_put_self hv.1 hv.2, hmail, haccepted, hgone, hreason, .cancel⟩
  | _ =>
    exact ⟨_, by omega, v, serves_put_self hv.1 hv.2, hmail, haccepted, hgone, hreason, hleaves⟩

/-- The request's own steps bring it to return. -/
theorem Left.returns : Returns w i (.ok (.withdrawn reason)) := by
  induction n using Nat.strong_induction_on generalizing w with
  | _ n ih =>
    by_cases hn : n ≤ 6
    · by_cases hzero : n = 0
      · obtain ⟨v, hv, -, -, -, -, hleaves⟩ := hzero ▸ h
        generalize hs : v.stage = stage at hleaves
        cases hleaves
        exact .here hv.1 hs
      · obtain ⟨k, hk, hl⟩ := h.poll
        exact .step (.inl rfl) (ih k (by have := hk hn; omega) hl)
    · obtain ⟨k, hk, hl⟩ := h.shown
      exact .step (.inr (.inl rfl)) (ih k (by omega) hl)

end

theorem Left.act (h : ∃ n, Left w i request reason n)
    (ha : Undisturbed i request.approvalId w a) : ∃ n, Left (w.act a) i request reason n := by
  obtain ⟨n, h⟩ := h
  rcases ha with rfl | rfl | ⟨hwaiter, hsignals, hentry⟩
  · obtain ⟨k, -, hl⟩ := h.poll
    exact ⟨k, hl⟩
  · obtain ⟨k, -, hl⟩ := h.shown
    exact ⟨k, hl⟩
  · obtain ⟨v, hv, hmail, haccepted, hgone, hreason, hleaves⟩ := h
    exact ⟨n, v, ⟨hwaiter.trans hv.1, hv.2⟩, hmail, haccepted, hentry hgone,
      (hsignals v hv.1).trans hreason, hleaves⟩

/-- **A sweep reports what the signals of each request say.** A request that waits when everything
is withdrawn, and that nothing else touches, returns no other outcome than a withdrawal with the
reason that its signals give, and its own steps bring it there. So it reports the reason of the
sweep exactly if its signals give that one. -/
theorem withdrawAll_reports (timeout : Duration) (now : Timestamp) (acts run : List Act)
    (hw : w = after World.step (.new timeout now) acts) (hv : w.Serves i v request)
    (hwaits : v.stage.listens = true) (hheld : w.held request.approvalId = true)
    (hrun : Along World.step (Undisturbed i request.approvalId) (w.act (.withdrawAll reason)) run) :
    (∀ u result, (after World.step (w.act (.withdrawAll reason)) run).waiters[i]? = some u →
      u.stage = .returned result → result = .ok (.withdrawn (v.reason w)))
      ∧ Returns (after World.step (w.act (.withdrawAll reason)) run) i
        (.ok (.withdrawn (v.reason w))) := by
  have h : Inv w := hw ▸ inv_after
  obtain ⟨entry, hentry⟩ := Option.isSome_iff_exists.mp hheld
  have hleft : ∃ n, Left (w.act (.withdrawAll reason)) i request (v.reason w) n := by
    obtain ⟨n, hn⟩ : ∃ n, Leaves (v.reason w) v.stage n := by
      cases hs : v.stage with rw [hs] at hwaits
      | presenting => exact ⟨_, .presenting⟩
      | selecting arm =>
        cases arm with
        | _ => exact ⟨_, by constructor⟩
      | _ => cases hwaits
    have hmap : (w.act (.withdrawAll reason)).waiters[i]?
        = some { v with mailbox := .disconnected } := by
      refine List.getElem?_mapIdx.trans ?_
      rw [hv.1, Option.map_some, if_pos]
      refine List.any_eq_true.mpr ⟨entry, Table.mem_values.mpr ⟨_, hentry⟩, ?_⟩
      exact decide_eq_true (h.own_entry hv hentry).2.1
    exact ⟨n, _, ⟨hmap, hv.2⟩, rfl, (h.of_held hv hheld).1, rfl, rfl, hn⟩
  obtain ⟨n, hl⟩ := after_inv (I := fun w' => ∃ n, Left w' i request (v.reason w) n)
    (fun _ _ => Left.act) run _ hleft hrun
  refine ⟨fun u result hu hs => ?_, hl.returns⟩
  obtain ⟨v, hv, -, -, -, -, hleaves⟩ := hl
  cases hv.1.symm.trans hu
  rw [hs] at hleaves
  cases hleaves
  rfl

theorem withdrawAll_reports_timedOut :
    Returns (after World.step (.new ⟨10⟩ ⟨0⟩) (presentedRun ++ [.withdrawAll .timedOut, .poll 0,
      .withdrawNext 0])) 0 (.ok (.withdrawn .timedOut)) := by
  obtain ⟨v, request, hv, hid, hstage, hreason⟩ := exists_serves
    (show ((after World.step (.new ⟨10⟩ ⟨0⟩) presentedRun).waiters[0]?).any (fun v =>
      v.summary = (some firstId, .selecting .cancel, none)
        ∧ v.reason (after World.step (.new ⟨10⟩ ⟨0⟩) presentedRun) = .timedOut) = true
      by decide +kernel)
  rw [← hreason]
  refine (withdrawAll_reports ⟨10⟩ ⟨0⟩ presentedRun [.poll 0, .withdrawNext 0] rfl hv
    (by rw [hstage]; rfl) (by rw [hid]; decide +kernel)
    ⟨.inl rfl, .inr (.inr ?_), trivial⟩).2
  -- the rest of the sweep leaves the requests alone
  simp only [World.act]
  fun_cases withdrawNext with
  | _ => exact ⟨rfl, fun _ _ => rfl, id⟩

/-- Where the request returns, nothing is known of the sweep's own reason. -/
theorem withdrawAll_reason_lost :
    (after World.step (.new ⟨10⟩ ⟨0⟩) (presentedRun ++ [.withdrawAll .cancelled, .poll 0, .poll 0,
        .poll 0, .poll 0, .poll 0])).waiters.map Waiter.summary
      = [(some firstId, .returned (.ok (.withdrawn .timedOut)), some .receiver)] := by
  decide +kernel

end Withdrawn

end GtaClaw.Approval
