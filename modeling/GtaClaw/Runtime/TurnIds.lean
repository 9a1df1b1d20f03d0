import GtaClaw.Runtime.Calls

/-!
# Turn identities

A turn is numbered from the session as it was loaded and claimed after that, so another
turn may have come and gone in between. What was handed out is read off the calls: which
turn each was admitted for, whether it still holds its session and whether it has saved.
A step hands out a turn, saves one, releases one, or changes nothing of this (`Move`).
-/

namespace GtaClaw.Runtime

open Lib ConversationRegistry World Function

/-- What a call was admitted for. -/
structure Claimed where
  sessionId : SessionId
  turn : Nat
  /-- The generation it was claimed in, as long as the turn is live. -/
  held : Option Nat
  saved : Bool

def Call.claimed : Call → Option Claimed
  | .submit request (.spawning g turn _) => some ⟨request.sessionId, turn, some g, false⟩
  | .submit request (.running g turn _ saved) => some ⟨request.sessionId, turn, some g, saved⟩
  | .submit request (.retiring _ turn)
  | .submit request (.dropped turn)
  | .submit request (.ended turn) => some ⟨request.sessionId, turn, none, true⟩
  | _ => none

def World.claims (w : World) (i : Nat) : Option Claimed := w.calls[i]?.bind Call.claimed

/-- A free session is claimed only under the number that it would be given now; one that is taken
is refused. -/
def World.timely (w : World) : Act → Bool
  | .start _ => true
  | .advance i _ =>
    match w.calls[i]? with
    | some (.submit request (.claiming _ turn _)) =>
      (w.sessions.owner request.sessionId).isSome
        || w.state.nextTurn request.sessionId == some turn
    | _ => true

/-- A turn saves its session before it ends; nobody shuts the runtime down. -/
def World.orderly (w : World) : Act → Bool
  | .start .shutdown => false
  | .start _ => true
  | .advance i env =>
    match w.calls[i]? with
    | some (.submit _ (.running _ _ _ saved)) => saved || !env.finish
    | some (.shutdown _) => false
    | _ => true

/-! ## What a step does -/

structure Ledger where
  claims : Nat → Option Claimed
  owner : SessionId → Option (LiveTurn × Nat)
  state : StateStore

def World.ledger (w : World) : Ledger := ⟨w.claims, w.sessions.owner, w.state⟩

/-- The session and the turn that a call was admitted for. -/
def Ledger.turnOf (L : Ledger) (i : Nat) : Option (SessionId × Nat) :=
  (L.claims i).map fun c => (c.sessionId, c.turn)

theorem turnOf_update {L : Ledger} {i : Nat} {owner : SessionId → Option (LiveTurn × Nat)}
    {state : StateStore} {c : Claimed} : Ledger.turnOf ⟨update L.claims i (some c), owner, state⟩
      = update L.turnOf i (some (c.sessionId, c.turn)) := by
  funext j
  unfold Ledger.turnOf
  by_cases hj : j = i
  · subst hj
    simp
  · simp [update_of_ne hj]

inductive Move (L : Ledger) : Ledger → Prop
  | same : Move L L
  | claim {i g turn : Nat} {s : SessionId} (hnew : L.claims i = none) (hfree : L.owner s = none)
      (hnext : L.state.nextTurn s = some turn) :
      Move L { L with
        claims := Function.update L.claims i (some ⟨s, turn, some g, false⟩)
        owner := Function.update L.owner s (some (⟨turn, i⟩, g)) }
  | save {i g : Nat} {c : Claimed} (hc : L.claims i = some c) (hheld : c.held = some g)
      (revision : Nat) :
      Move L { L with
        claims := Function.update L.claims i (some { c with saved := true })
        state := { L.state with
          sessions := Function.update L.state.sessions c.sessionId (some ⟨c.turn, revision⟩) } }
  | release {i g : Nat} {c : Claimed} (hc : L.claims i = some c) (hheld : c.held = some g)
      (hsaved : c.saved = true) :
      Move L { L with
        claims := Function.update L.claims i (some { c with held := none })
        owner := if (L.owner c.sessionId).map (fun o => (o.1.turn, o.2)) = some (c.turn, g) then
            Function.update L.owner c.sessionId none
          else L.owner }

variable {w w' : World} {i : Nat} {call : Call} {s : SessionId}

theorem ledger_set (h : w.calls[i]? = some call) (hcalls : w'.calls = w.calls) (call' : Call) :
    (w'.set i call').ledger
      = ⟨update w.claims i call'.claimed, w'.sessions.owner, w'.state⟩ := by
  have hclaims : (w'.set i call').claims = update w.claims i call'.claimed := by
    funext j
    unfold World.claims World.set
    grind [update_apply]
  rw [World.ledger, hclaims]
  rfl

theorem Move.frame (h : w.calls[i]? = some call) {call' : Call} (hcalls : w'.calls = w.calls)
    (howner : w'.sessions.owner = w.sessions.owner) (hstate : w'.state = w.state)
    (hclaimed : call'.claimed = call.claimed) : Move w.ledger (w'.set i call').ledger := by
  have hself : w.claims i = call.claimed := by rw [claims, h, Option.bind_some]
  rw [ledger_set h hcalls, hclaimed, ← hself, update_eq_self, howner, hstate]
  exact .same

theorem submit_move {request : Submission} {phase : SubmitPhase} {env : Env}
    (h : w.calls[i]? = some (.submit request phase)) (htimely : w.timely (.advance i env) = true)
    (horderly : w.orderly (.advance i env) = true) :
    Move w.ledger ((w.submitStep i env request phase).2.set i
      (.submit request (w.submitStep i env request phase).1)).ledger := by
  have hclaims : w.claims i = (Call.submit request phase).claimed := by
    rw [claims, h, Option.bind_some]
  fun_cases submitStep w i env request phase
  all_goals try exact .frame h rfl rfl rfl rfl
  case case6 => exact .frame h rfl (sweep_owner _ _) rfl rfl
  case case17 g turn revision evicted sessions hclaim =>
    obtain ⟨hfree, howner⟩ := claim_ok hclaim
    have hnext : w.state.nextTurn request.sessionId = some turn := by
      simpa [timely, h, hfree] using htimely
    rw [ledger_set h (by rfl)]
    rw [howner]
    exact .claim hclaims hfree hnext
  case case19 g turn revision saved hfinish retiring sessions hrelease =>
    obtain rfl : saved = true := by simpa [orderly, h, hfinish] using horderly
    have howner := release_owner w.sessions request.sessionId turn g env.now
    rw [hrelease] at howner
    rw [ledger_set h (by rfl)]
    rw [howner]
    have hmove := Move.release (L := w.ledger) hclaims rfl rfl
    cases retiring with
    | true => exact hmove
    | false => exact hmove
  case case20 g turn revision saved hgoes revision' state hsave hport =>
    rw [ledger_set h (by rfl)]
    unfold StateStore.saveSession at hsave
    split at hsave
    · cases hsave
      have hmove := Move.save (L := w.ledger) hclaims rfl (revision + 1)
      exact hmove
    · cases hsave
  case case22 => exact .frame h rfl (finishRetirement_owner _ _ _) rfl rfl

theorem step_move {a : Act} (htimely : w.timely a = true) (horderly : w.orderly a = true) :
    Move w.ledger (w.step a).2.ledger := by
  cases a with
  | start request =>
    -- a call that has just begun has claimed nothing
    have hclaims : (w.step (.start request)).2.claims = w.claims := by
      funext j
      cases request <;>
        grind [claims, step, Request.call, Call.claimed]
    have hledger : (w.step (.start request)).2.ledger = w.ledger := by
      rw [ledger, hclaims]
      rfl
    rw [hledger]
    exact .same
  | advance i env =>
    change Move w.ledger (w.advance i env).ledger
    unfold advance
    split
    · rename_i request phase h
      exact submit_move h htimely horderly
    · rename_i phase h
      cases phase with
      | entered | working =>
        unfold goalStep
        dsimp only
        repeat' split
        all_goals exact .frame h rfl rfl rfl rfl
      | ended | refused e => exact .frame h rfl rfl rfl rfl
    · rename_i phase h
      simp [orderly, h] at horderly
    · exact .same

/-! ## What every step keeps -/

/-- A live turn is the owner of its session and ahead of what is saved; every other turn
that was admitted is saved. -/
structure Numbered (L : Ledger) : Prop where
  held : ∀ i c g, L.claims i = some c → c.held = some g →
    L.owner c.sessionId = some (⟨c.turn, i⟩, g)
  owned : ∀ s live g, L.owner s = some (live, g) → L.turnOf live.call = some (s, live.turn)
  done : ∀ i c, L.claims i = some c → c.held = none → c.saved = true
  saved : ∀ i c, L.claims i = some c → c.saved = true →
    ∃ snapshot, L.state.sessions c.sessionId = some snapshot ∧ c.turn ≤ snapshot.turn
  front : ∀ i c g, L.claims i = some c → c.held = some g →
    ∀ snapshot, L.state.sessions c.sessionId = some snapshot → snapshot.turn ≤ c.turn
  distinct : ∀ i j admitted, L.turnOf i = some admitted → L.turnOf j = some admitted → i = j

theorem StateStore.lt_nextTurn {state : StateStore} {turn : Nat}
    {snapshot : SessionSnapshot} (h : state.nextTurn s = some turn)
    (hsaved : state.sessions s = some snapshot) : snapshot.turn < turn := by
  unfold StateStore.nextTurn at h
  rw [hsaved] at h
  have hsum := (checkedAdd_eq_some h).2
  omega

/-- The next number of a session that nobody holds was never handed out. -/
theorem Numbered.lt_next {L : Ledger} (h : Numbered L) {turn issued : Nat}
    (hfree : L.owner s = none) (hnext : L.state.nextTurn s = some turn)
    (hi : L.turnOf i = some (s, issued)) : issued < turn := by
  obtain ⟨c, hc, heq⟩ := Option.map_eq_some_iff.mp hi
  cases heq
  have hreleased : c.held = none := by
    cases hheld : c.held with
    | none => rfl
    | some g =>
      have howner := h.held i c g hc hheld
      rw [hfree] at howner
      cases howner
  obtain ⟨snapshot, hsnapshot, hle⟩ := h.saved i c hc (h.done i c hc hreleased)
  have hlt := StateStore.lt_nextTurn hnext hsnapshot
  omega

theorem Numbered.move {L L' : Ledger} (h : Numbered L) (hmove : Move L L') : Numbered L' := by
  cases hmove with
  | same => exact h
  | @claim i g turn s hnew hfree hnext =>
    have hnone : L.turnOf i = none := by simp [Ledger.turnOf, hnew]
    have hbehind : ∀ j issued, L.turnOf j = some (s, issued) → issued < turn :=
      fun _ _ => h.lt_next hfree hnext
    have hahead : ∀ snapshot, L.state.sessions s = some snapshot → snapshot.turn < turn :=
      fun _ => StateStore.lt_nextTurn hnext
    obtain ⟨held, owned, done, saved, front, distinct⟩ := h
    constructor <;> try rw [turnOf_update]
    all_goals grind [update_apply]
  | @save i g c hc hheld revision =>
    obtain ⟨held, owned, done, saved, front, distinct⟩ := h
    constructor <;> try rw [turnOf_update]
    case saved =>
      -- what was saved before is behind the live turn
      intro j c' hc' hsaved
      by_cases hs : c'.sessionId = c.sessionId
      · refine ⟨⟨c.turn, revision⟩, by simp [hs], ?_⟩
        grind [update_apply]
      · grind [update_apply]
    all_goals grind [update_apply]
  | @release i g c hc hheld hsaved =>
    -- the turn that ends owns its session
    obtain ⟨held, owned, done, saved, front, distinct⟩ := h
    constructor <;> try rw [turnOf_update]
    all_goals grind [update_apply]

theorem Move.turnOf {L L' : Ledger} (hmove : Move L L') {admitted : SessionId × Nat}
    (h : L.turnOf i = some admitted) : L'.turnOf i = some admitted := by
  cases hmove with
  | same => exact h
  | claim hnew | save hnew | release hnew => grind [update_apply, Ledger.turnOf]

theorem World.Fresh.numbered (h : w.Fresh) : Numbered w.ledger := by
  obtain ⟨_, _, _, _, rfl⟩ := h
  constructor <;> intros <;> contradiction

theorem Numbered.cancels (h : Numbered w.ledger) {turn cancelled : Nat}
    (hcancel : w.cancelTurnIfCurrent s turn = some cancelled) :
    w.ledger.turnOf cancelled = some (s, turn) := by
  obtain ⟨live, hlive, rfl⟩ := Option.map_eq_some_iff.mp hcancel
  obtain ⟨hlookup, hturn⟩ := Option.filter_eq_some_iff.mp hlive
  obtain ⟨entry, hentry, hlive⟩ := Option.bind_eq_some_iff.mp hlookup
  have howner : w.ledger.owner s = some (live, entry.generation) :=
    owner_eq_some.mpr ⟨entry, hentry, hlive, rfl⟩
  have hcurrent : live.turn = turn := of_decide_eq_true hturn
  rw [← hcurrent]
  exact h.owned s live _ howner

/-- **Turn identities are not reused** if no turn is claimed under an outdated number: two
calls are never admitted for one turn, and whoever cancels a turn by the number that was
observed cancels that turn or none. -/
theorem turn_identities_unique (start : World) (hfresh : start.Fresh) (acts more : List Act)
    (hacts : Along World.step (fun w a => w.orderly a ∧ w.timely a) start acts)
    (hmore : Along World.step (fun w a => w.orderly a ∧ w.timely a) (after World.step start acts)
      more) :
    let w := after World.step start acts
    let w' := after World.step w more
    (∀ i j admitted, w'.ledger.turnOf i = some admitted → w'.ledger.turnOf j = some admitted →
      i = j) ∧
    ∀ observed sessionId turn, w.ledger.turnOf observed = some (sessionId, turn) →
      ∀ cancelled, w'.cancelTurnIfCurrent sessionId turn = some cancelled →
        cancelled = observed := by
  intro w w'
  have hstep : ∀ (w : World) (a : Act), Numbered w.ledger → w.orderly a ∧ w.timely a →
      Numbered (w.step a).2.ledger :=
    fun w a h hok => h.move (step_move hok.2 hok.1)
  have hw : Numbered w.ledger := after_inv hstep acts _ hfresh.numbered hacts
  have hw' : Numbered w'.ledger := after_inv hstep more w hw hmore
  refine ⟨hw'.distinct, ?_⟩
  intro observed sessionId turn hobserved cancelled hcancel
  have hstill : w'.ledger.turnOf observed = some (sessionId, turn) :=
    after_inv (I := fun w => w.ledger.turnOf observed = some (sessionId, turn))
      (fun w a h hok => (step_move hok.2 hok.1).turnOf h) more w hobserved hmore
  exact hw'.distinct _ _ _ (hw'.cancels hcancel) hstill

/-! ## Two calls -/

/-- One turn after the other, the second one still running. -/
def inOrderRun : List Act :=
  deskTurn :: List.replicate 10 (goOn 0) ++ [finish 0] ++ deskTurn :: List.replicate 8 (goOn 1)

/-- The second call numbers its turn before the first one claims. -/
def overtakenRun : List Act :=
  [deskTurn, deskTurn] ++ List.replicate 7 (goOn 1) ++ List.replicate 10 (goOn 0) ++ [finish 0]

theorem turn_identities_in_order :
    (after World.step deskRuntime inOrderRun).ledger.turnOf 1 = some (deskSession, 2) ∧
    ∀ cancelled, (after World.step deskRuntime inOrderRun).cancelTurnIfCurrent deskSession 2
      = some cancelled → cancelled = 1 := by
  have hturn : (after World.step deskRuntime inOrderRun).ledger.turnOf 1 = some (deskSession, 2) := by
    decide +kernel
  refine ⟨hturn, ?_⟩
  exact (turn_identities_unique deskRuntime deskRuntime_fresh inOrderRun [] (by decide +kernel)
    trivial).2 1 deskSession 2 hturn

/-- The first turn is over, the second one is admitted under the same number, and it is
cancelled in place of the first. -/
theorem turn_identity_reused :
    Along World.step (fun w a => w.orderly a) deskRuntime (overtakenRun ++ [goOn 1]) ∧
    (after World.step deskRuntime overtakenRun).ledger.turnOf 0 = some (deskSession, 1) ∧
    (after World.step deskRuntime (overtakenRun ++ [goOn 1])).ledger.turnOf 1 = some (deskSession, 1) ∧
    (after World.step deskRuntime (overtakenRun ++ [goOn 1])).cancelTurnIfCurrent deskSession 1
      = some 1 := by
  decide +kernel

end GtaClaw.Runtime
