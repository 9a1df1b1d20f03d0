import GtaClaw.Runtime.WorkerRegistry
import GtaClaw.Lib.Run

/-!
# Fences of the worker registry

A run of the registry is read as a list of facts: tickets that were issued,
sessions that were admitted, calls that were accepted, evictions. Fences grow
from one admission to the next, over all workers. A session that is live has a
fence at least as great as every fence its worker was ever given, and its
sequence has passed every call that was accepted under that fence.
-/

namespace GtaClaw.Runtime

open Lib WorkerConfig Table List

/-! ## Facts -/

/-- What an operation of the registry brought about. -/
inductive Fact where
  | issued (ticket : WorkerTicket)
  | admitted (now : Timestamp) (secret : String) (session : WorkerSession)
  | beaten (workerId : WorkerId) (fence : Nat)
  | dispatched (workerId : WorkerId) (fence sequence : Nat)
  | evicted (workerId : WorkerId)

/-- What one operation does to the state, by the fact it brings about. -/
inductive RegistryEffect (s : RegistryState) : Option Fact → RegistryState → Prop where
  | swept {s' : RegistryState} (htickets : Table.Shrinks s.tickets s'.tickets)
      (hsessions : Table.Shrinks s.sessions s'.sessions) (hnext : s'.nextFence = s.nextFence) :
      RegistryEffect s none s'
  | issued {ticket : WorkerTicket} {tickets : Table String WorkerTicket}
      (htickets : Table.Shrinks s.tickets tickets) :
      RegistryEffect s (some (.issued ticket))
        { s with tickets := tickets.insert ticket.secret ticket }
  | admitted {now : Timestamp} {secret : String} {session : WorkerSession} {ticket : WorkerTicket}
      (hticket : s.tickets.lookup secret = some ticket)
      (hworker : ticket.workerId = session.workerId) (hexpiry : ¬ ticket.expiresAt ≤ now)
      (hfence : session.fence = s.nextFence) :
      RegistryEffect s (some (.admitted now secret session))
        ⟨s.tickets.erase secret, s.sessions.insert session.workerId session,
          saturatingAdd s.nextFence 1⟩
  | beaten {workerId : WorkerId} {session : WorkerSession} (expiresAt : Timestamp)
      (hsession : s.sessions.lookup workerId = some session) :
      RegistryEffect s (some (.beaten workerId session.fence))
        { s with
          sessions := s.sessions.insert workerId { session with expiresAt := expiresAt } }
  | dispatched {workerId : WorkerId} {sequence : Nat} {session : WorkerSession}
      (hsession : s.sessions.lookup workerId = some session)
      (hsequence : session.lastSequence < sequence) :
      RegistryEffect s (some (.dispatched workerId session.fence sequence))
        { s with
          sessions := s.sessions.insert workerId { session with lastSequence := sequence } }
  | evicted {workerId : WorkerId} :
      RegistryEffect s (some (.evicted workerId))
        { s with sessions := s.sessions.erase workerId }

section Effects

variable {config : WorkerConfig} {s : RegistryState}

theorem RegistryEffect.same : RegistryEffect s none s := .swept (.refl _) (.refl _) rfl

end Effects

/-! ## Tickets -/

def admission (secret : String) : Fact → Option (Timestamp × WorkerSession)
  | .admitted now secret' session => if secret' = secret then some (now, session) else none
  | _ => none

/-- A ticket of this secret was issued. -/
def Issues (secret : String) : Fact → Prop
  | .issued ticket => ticket.secret = secret
  | _ => False

/-- How a ticket stands, by the facts since it was issued: nobody used it, or it was
used once, by its worker and in time, and is gone. -/
inductive Standing (ticket : WorkerTicket) (since : List Fact) (entry : Option WorkerTicket) :
    Prop where
  | unused (hsince : since.filterMap (admission ticket.secret) = [])
      (hentry : ∀ t, entry = some t → t = ticket)
  | used {now session} (hsince : since.filterMap (admission ticket.secret) = [(now, session)])
      (hworker : session.workerId = ticket.workerId) (hexpiry : ¬ ticket.expiresAt ≤ now)
      (hentry : entry = none)

/-- Every ticket stands by the facts since it was issued, until its secret is issued
again; and every ticket that waits was issued. -/
structure Ticketed (facts : List Fact) (s : RegistryState) : Prop where
  standing : ∀ before since ticket, facts = before ++ .issued ticket :: since →
    (∀ f ∈ since, ¬ Issues ticket.secret f) →
    Standing ticket since (s.tickets.lookup ticket.secret)
  issued : ∀ secret ticket, s.tickets.lookup secret = some ticket →
    ticket.secret = secret ∧ .issued ticket ∈ facts

variable {ticket : WorkerTicket}

theorem Standing.shrink {since since' : List Fact}
    {entry entry' : Option WorkerTicket} (h : Standing ticket since entry)
    (hsame : since'.filterMap (admission ticket.secret)
      = since.filterMap (admission ticket.secret))
    (hentry : ∀ t, entry' = some t → entry = some t) : Standing ticket since' entry' := by
  cases h with
  | unused hsince hold => exact .unused (hsame.trans hsince) fun t ht => hold t (hentry t ht)
  | used hsince hworker hexpiry hnone =>
    refine .used (hsame.trans hsince) hworker hexpiry (Option.eq_none_iff_forall_ne_some.mpr ?_)
    intro t ht
    rw [hentry t ht] at hnone
    cases hnone

variable {session : WorkerSession} {facts : List Fact} {s s' : RegistryState} {f : Option Fact}
  {now : Timestamp}

theorem Standing.use {t : WorkerTicket} {since : List Fact} {entry : Option WorkerTicket}
    (h : Standing ticket since entry)
    (hentry : entry = some t) (hworker : t.workerId = session.workerId)
    (hexpiry : ¬ t.expiresAt ≤ now) :
    Standing ticket (since ++ [.admitted now ticket.secret session]) none := by
  cases h with
  | unused hsince hold =>
    cases hold t hentry
    refine .used ?_ hworker.symm hexpiry rfl
    have hnew : admission ticket.secret (.admitted now ticket.secret session)
        = some (now, session) := if_pos rfl
    rw [filterMap_concat_of_some hnew, hsince, nil_append]
  | used _ _ _ hnone =>
    rw [hnone] at hentry
    cases hentry

section

variable (h : Ticketed facts s)
include h

/-- Nothing new waits, and nobody was admitted. -/
theorem Ticketed.frame {f : Fact} (hf : ∀ secret, admission secret f = none)
    (hissued : ∀ ticket, f ≠ .issued ticket) (htickets : Table.Shrinks s.tickets s'.tickets) :
    Ticketed (facts ++ [f]) s' where
  standing before since ticket heq hsince := by
    rcases concat_eq_append_cons heq with ⟨-, hnew, -⟩ | ⟨since', rfl, hold⟩
    · exact absurd hnew.symm (hissued ticket)
    · exact (h.standing before since' ticket hold fun g hg =>
        hsince g (mem_append_left _ hg)).shrink (filterMap_concat_of_none (hf _)) (htickets _)
  issued secret ticket hlookup := by
    obtain ⟨hsecret, hmem⟩ := h.issued secret ticket (htickets _ _ hlookup)
    exact ⟨hsecret, mem_append_left _ hmem⟩

theorem Ticketed.issue {tickets : Table String WorkerTicket}
    (htickets : Table.Shrinks s.tickets tickets) :
    Ticketed (facts ++ [.issued ticket])
      { s with tickets := tickets.insert ticket.secret ticket } where
  standing before since old heq hsince := by
    rcases concat_eq_append_cons heq with ⟨-, hnew, rfl⟩ | ⟨since', rfl, hold⟩
    · cases hnew
      refine .unused rfl fun t ht => ?_
      rw [AList.lookup_insert] at ht
      exact (Option.some.inj ht).symm
    · -- the secret was not issued again, so the new ticket has another one
      have hne : ticket.secret ≠ old.secret :=
        hsince (.issued ticket) (mem_append_right _ (mem_singleton_self _))
      refine (h.standing before since' old hold fun g hg =>
        hsince g (mem_append_left _ hg)).shrink (filterMap_concat_of_none rfl) fun t ht => ?_
      rw [AList.lookup_insert_ne hne.symm] at ht
      exact htickets _ _ ht
  issued secret t hlookup := by
    rcases lookup_insert_eq_some hlookup with ⟨rfl, rfl⟩ | ⟨-, hold⟩
    · exact ⟨rfl, mem_append_right _ (mem_singleton_self _)⟩
    · obtain ⟨hsecret, hmem⟩ := h.issued secret t (htickets _ _ hold)
      exact ⟨hsecret, mem_append_left _ hmem⟩

theorem Ticketed.use {secret : String} {sessions : Table WorkerId WorkerSession} {nextFence : Nat}
    (hticket : s.tickets.lookup secret = some ticket)
    (hworker : ticket.workerId = session.workerId) (hexpiry : ¬ ticket.expiresAt ≤ now) :
    Ticketed (facts ++ [.admitted now secret session])
      ⟨s.tickets.erase secret, sessions, nextFence⟩ where
  standing before since old heq hsince := by
    rcases concat_eq_append_cons heq with ⟨-, hnew, -⟩ | ⟨since', rfl, hold⟩
    · cases hnew
    have hstanding := h.standing before since' old hold fun g hg => hsince g (mem_append_left _ hg)
    by_cases hsecret : secret = old.secret
    · subst hsecret
      rw [AList.lookup_erase]
      exact hstanding.use hticket hworker hexpiry
    · refine hstanding.shrink (filterMap_concat_of_none (if_neg hsecret)) fun t ht => ?_
      exact (lookup_erase_eq_some ht).2
  issued secret' t hlookup := by
    obtain ⟨hsecret, hmem⟩ := h.issued secret' t (lookup_erase_eq_some hlookup).2
    exact ⟨hsecret, mem_append_left _ hmem⟩

theorem Ticketed.step (heff : RegistryEffect s f s') : Ticketed (facts ++ f.toList) s' := by
  cases heff with
  | swept htickets =>
    rw [Option.toList_none, append_nil]
    refine ⟨fun before since ticket heq hsince => ?_, fun secret ticket hlookup => ?_⟩
    · exact (h.standing before since ticket heq hsince).shrink rfl (htickets _)
    · exact h.issued secret ticket (htickets _ _ hlookup)
  | issued htickets => exact h.issue htickets
  | admitted hticket hworker hexpiry _ => exact h.use hticket hworker hexpiry
  | beaten | dispatched | evicted => exact h.frame (fun _ => rfl) (fun _ => nofun) (.refl _)

end

/-- Whoever was admitted came with a ticket that had been issued. -/
def Drawn (facts : List Fact) : Prop :=
  ∀ before now secret session since, facts = before ++ .admitted now secret session :: since →
    ∃ ticket, ticket.secret = secret ∧ .issued ticket ∈ before

theorem Drawn.step (h : Drawn facts)
    (ht : Ticketed facts s) (heff : RegistryEffect s f s') : Drawn (facts ++ f.toList) := by
  intro before now secret session since heq
  cases f with
  | none =>
    rw [Option.toList_none, append_nil] at heq
    exact h before now secret session since heq
  | some f =>
    rcases concat_eq_append_cons heq with ⟨rfl, rfl, -⟩ | ⟨since', -, hold⟩
    · cases heff with
      | admitted hticket => exact ⟨_, ht.issued _ _ hticket⟩
    · exact h before now secret session since' hold

/-! ## Fences -/

variable (worker : WorkerId)

def fenceGiven : Fact → Option Nat
  | .admitted _ _ session => if session.workerId = worker then some session.fence else none
  | _ => none

/-- The fence under which a worker acted. -/
def fenceActed : Fact → Option Nat
  | .beaten workerId fence => if workerId = worker then some fence else none
  | .dispatched workerId fence _ => if workerId = worker then some fence else none
  | _ => none

/-- Fence and sequence of a call of a worker. -/
def dispatchedCall : Fact → Option (Nat × Nat)
  | .dispatched workerId fence sequence =>
    if workerId = worker then some (fence, sequence) else none
  | _ => none

/-- The session that a worker had is over. -/
def Severs : Fact → Prop
  | .admitted _ _ session => session.workerId = worker
  | .evicted workerId => workerId = worker
  | _ => False

def isAdmission : Fact → Bool
  | .admitted .. => true
  | _ => false

/-- The lexicographic order of fence and sequence. -/
def Precedes (a b : Nat × Nat) : Prop := a.1 < b.1 ∨ (a.1 = b.1 ∧ a.2 < b.2)

/-- The session has the fence of the call or a later one, and has come at least as far. -/
def WorkerSession.Reached (session : WorkerSession) (call : Nat × Nat) : Prop :=
  call.1 < session.fence ∨ (call.1 = session.fence ∧ call.2 ≤ session.lastSequence)

/-- The next fence is past everything that was given or used. -/
structure Fresh (facts : List Fact) (s : RegistryState) : Prop where
  given : ∀ w, ∀ f ∈ facts.filterMap (fenceGiven w), f < s.nextFence
  live : ∀ w session, s.sessions.lookup w = some session → session.fence < s.nextFence

/-- The calls of a worker are in order, and its session has come as far as the last. -/
structure InOrder (facts : List Fact) (s : RegistryState) (w : WorkerId) : Prop where
  below : ∀ call ∈ facts.filterMap (dispatchedCall w), call.1 < s.nextFence
  reached : ∀ session, s.sessions.lookup w = some session →
    ∀ call ∈ facts.filterMap (dispatchedCall w), session.Reached call
  ordered : (facts.filterMap (dispatchedCall w)).Pairwise Precedes

/-- Once a session is over, its worker can only act under later fences than it had. -/
def Severed (facts : List Fact) (s : RegistryState) (w : WorkerId) : Prop :=
  ∀ before e since, facts = before ++ e :: since → Severs w e →
    ∀ f ∈ before.filterMap (fenceGiven w),
      (∀ session, s.sessions.lookup w = some session → f < session.fence) ∧
      ∀ g ∈ since.filterMap (fenceActed w), f < g

section FenceSteps

variable {facts : List Fact} {s s' : RegistryState} {f : Fact} {w : WorkerId}

theorem Fresh.concat (h : Fresh facts s) (hgiven : ∀ w, fenceGiven w f = none)
    (hlive : ∀ w session, s'.sessions.lookup w = some session →
      ∃ old, s.sessions.lookup w = some old ∧ session.fence = old.fence)
    (hnext : s'.nextFence = s.nextFence) : Fresh (facts ++ [f]) s' where
  given w g hg := by
    rw [mem_filterMap_concat, hgiven] at hg
    rw [hnext]
    exact h.given w g (hg.resolve_right (by simp))
  live w session hlookup := by
    obtain ⟨old, hold, hfence⟩ := hlive w session hlookup
    rw [hnext, hfence]
    exact h.live w old hold

/-- No call of the worker is dispatched. Its session goes on, or is one under the next
fence, which is past every call. -/
theorem InOrder.concat (h : InOrder facts s w) (hf : dispatchedCall w f = none)
    (hlive : ∀ session, s'.sessions.lookup w = some session →
      (∃ old, s.sessions.lookup w = some old ∧ session.fence = old.fence ∧
        session.lastSequence = old.lastSequence) ∨ session.fence = s.nextFence)
    (hnext : s.nextFence ≤ s'.nextFence) : InOrder (facts ++ [f]) s' w := by
  have hsame : (facts ++ [f]).filterMap (dispatchedCall w)
      = facts.filterMap (dispatchedCall w) := filterMap_concat_of_none hf
  refine ⟨?_, ?_, ?_⟩
  · intro call hcall
    rw [hsame] at hcall
    exact (h.below call hcall).trans_le hnext
  · intro session hlookup call hcall
    rw [hsame] at hcall
    rcases hlive session hlookup with ⟨old, hold, hfence, hlast⟩ | hfence
    · rw [WorkerSession.Reached, hfence, hlast]
      exact h.reached old hold call hcall
    refine .inl ?_
    rw [hfence]
    exact h.below call hcall
  · rw [hsame]
    exact h.ordered

theorem InOrder.dispatch {sequence : Nat} (h : InOrder facts s w)
    (hlookup : s.sessions.lookup w = some session) (hfence : session.fence < s.nextFence)
    (hsequence : session.lastSequence < sequence) :
    InOrder (facts ++ [.dispatched w session.fence sequence])
      { s with sessions := s.sessions.insert w { session with lastSequence := sequence } } w := by
  have hnew : (facts ++ [Fact.dispatched w session.fence sequence]).filterMap (dispatchedCall w)
      = facts.filterMap (dispatchedCall w) ++ [(session.fence, sequence)] :=
    filterMap_concat_of_some (if_pos rfl)
  have hold := h.reached session hlookup
  refine ⟨?_, ?_, ?_⟩
  · intro call hcall
    rw [hnew, mem_append, mem_singleton] at hcall
    rcases hcall with hcall | rfl
    · exact h.below call hcall
    · exact hfence
  · intro session' hlookup' call hcall
    rw [AList.lookup_insert] at hlookup'
    cases hlookup'
    rw [hnew, mem_append, mem_singleton] at hcall
    rcases hcall with hcall | rfl
    · rcases hold call hcall with hlt | ⟨heq, hle⟩
      · exact .inl hlt
      · exact .inr ⟨heq, (Nat.lt_of_le_of_lt hle hsequence).le⟩
    · exact .inr ⟨rfl, le_rfl⟩
  · rw [hnew, pairwise_append]
    refine ⟨h.ordered, pairwise_singleton _ _, ?_⟩
    intro call hcall next hnext
    rw [mem_singleton.mp hnext]
    rcases hold call hcall with hlt | ⟨heq, hle⟩
    · exact .inl hlt
    · exact .inr ⟨heq, hle.trans_lt hsequence⟩

/-- A worker acts only under the fence of its session; and a session goes on, or comes
with a fence past all that were given. -/
theorem Severed.concat (h : Severed facts s w)
    (hlive : ∀ session, s'.sessions.lookup w = some session →
      (¬ Severs w f ∧ ∃ old, s.sessions.lookup w = some old ∧ session.fence = old.fence) ∨
      ∀ g ∈ facts.filterMap (fenceGiven w), g < session.fence)
    (hacted : ∀ g, fenceActed w f = some g → ∃ old, s.sessions.lookup w = some old ∧ g = old.fence) :
    Severed (facts ++ [f]) s' w := by
  intro before e since heq hsevers g hg
  rcases concat_eq_append_cons heq with ⟨rfl, rfl, rfl⟩ | ⟨since', rfl, hold⟩
  · refine ⟨fun session hlookup => ?_, by simp⟩
    rcases hlive session hlookup with ⟨hnot, -⟩ | hpast
    · exact absurd hsevers hnot
    · exact hpast g hg
  · obtain ⟨hsession, hsince⟩ := h before e since' hold hsevers g hg
    refine ⟨fun session hlookup => ?_, fun a ha => ?_⟩
    · rcases hlive session hlookup with ⟨-, old, holdSession, hfence⟩ | hpast
      · rw [hfence]
        exact hsession old holdSession
      refine hpast g ?_
      rw [hold, filterMap_append]
      exact mem_append_left _ hg
    · rcases mem_filterMap_concat.mp ha with ha | ha
      · exact hsince a ha
      · obtain ⟨old, holdSession, rfl⟩ := hacted a ha
        exact hsession old holdSession

end FenceSteps

structure Fenced (facts : List Fact) (s : RegistryState) : Prop where
  fresh : Fresh facts s
  inOrder : ∀ w, InOrder facts s w
  severed : ∀ w, Severed facts s w

section Step

variable {facts : List Fact} {s s' : RegistryState}

section

variable (h : Fenced facts s)
include h

/-- Sessions are dropped, and nothing else happens. -/
theorem Fenced.swept (hsessions : Table.Shrinks s.sessions s'.sessions)
    (hnext : s'.nextFence = s.nextFence) : Fenced facts s' where
  fresh := by
    refine ⟨fun w g hg => ?_, fun w session hlookup => ?_⟩
    · rw [hnext]
      exact h.fresh.given w g hg
    · rw [hnext]
      exact h.fresh.live w session (hsessions _ _ hlookup)
  inOrder w := by
    refine ⟨?_, fun session hlookup => ?_, (h.inOrder w).ordered⟩
    · rw [hnext]
      exact (h.inOrder w).below
    · exact (h.inOrder w).reached session (hsessions _ _ hlookup)
  severed w before e since heq hsevers g hg := by
    obtain ⟨hsession, hsince⟩ := h.severed w before e since heq hsevers g hg
    exact ⟨fun session hlookup => hsession session (hsessions _ _ hlookup), hsince⟩

/-- A fact about no fence; who is severed has no session left. -/
theorem Fenced.frame {f : Fact} (hgiven : ∀ w, fenceGiven w f = none)
    (hacted : ∀ w, fenceActed w f = none) (hcall : ∀ w, dispatchedCall w f = none)
    (hsevers : ∀ w, Severs w f → s.sessions.lookup w = none) : Fenced (facts ++ [f]) s where
  fresh := h.fresh.concat hgiven (fun _ session hlookup => ⟨session, hlookup, rfl⟩) rfl
  inOrder w := (h.inOrder w).concat (hcall w)
    (fun session hlookup => .inl ⟨session, hlookup, rfl, rfl⟩) le_rfl
  severed w := by
    refine (h.severed w).concat (fun session hlookup => .inl ⟨fun hs => ?_, session, hlookup, rfl⟩)
      (by simp [hacted])
    cases (hsevers w hs).symm.trans hlookup

/-- A worker acts under its session, which is renewed and keeps its fence. -/
theorem Fenced.acts {f : Fact} {w : WorkerId} {renewed : WorkerSession}
    (hlookup : s.sessions.lookup w = some session) (hfence : renewed.fence = session.fence)
    (hgiven : ∀ w', fenceGiven w' f = none) (hsevers : ∀ w', ¬ Severs w' f)
    (hacted : ∀ w', fenceActed w' f = if w = w' then some session.fence else none)
    (horder : ∀ w', InOrder (facts ++ [f]) { s with sessions := s.sessions.insert w renewed } w') :
    Fenced (facts ++ [f]) { s with sessions := s.sessions.insert w renewed } := by
  have hold : ∀ w' session', (s.sessions.insert w renewed).lookup w' = some session' →
      ∃ old, s.sessions.lookup w' = some old ∧ session'.fence = old.fence := by
    intro w' session' hlookup'
    rcases lookup_insert_eq_some hlookup' with ⟨rfl, rfl⟩ | ⟨-, hold⟩
    · exact ⟨session, hlookup, hfence⟩
    · exact ⟨session', hold, rfl⟩
  refine ⟨h.fresh.concat hgiven hold rfl, horder, fun w' => ?_⟩
  refine (h.severed w').concat (fun session' hlookup' => ?_) fun g hg => ?_
  · exact .inl ⟨hsevers w', hold w' session' hlookup'⟩
  · rw [hacted] at hg
    obtain ⟨rfl, hfence'⟩ := Option.ite_none_right_eq_some.mp hg
    exact ⟨session, hlookup, (Option.some.inj hfence').symm⟩

theorem Fenced.dispatch {w : WorkerId}
    {sequence : Nat} (hlookup : s.sessions.lookup w = some session)
    (hsequence : session.lastSequence < sequence) :
    Fenced (facts ++ [.dispatched w session.fence sequence])
      { s with sessions := s.sessions.insert w { session with lastSequence := sequence } } := by
  refine h.acts hlookup rfl (fun _ => rfl) (fun _ => id) (fun _ => rfl) fun w' => ?_
  by_cases hw : w = w'
  · subst hw
    exact (h.inOrder w).dispatch hlookup (h.fresh.live w session hlookup) hsequence
  refine (h.inOrder w').concat (if_neg hw) (fun session' hlookup' => ?_) le_rfl
  rcases lookup_insert_eq_some hlookup' with ⟨heq, -⟩ | ⟨-, hold⟩
  · exact absurd heq.symm hw
  · exact .inl ⟨session', hold, rfl, rfl⟩

/-- A worker is admitted, and there is room for the next fence. -/
theorem Fenced.enter {secret : String} {tickets : Table String WorkerTicket}
    (hfence : session.fence = s.nextFence) :
    Fenced (facts ++ [.admitted now secret session])
      ⟨tickets, s.sessions.insert session.workerId session, s.nextFence + 1⟩ := by
  refine ⟨⟨fun w g hg => ?_, fun w session' hlookup => ?_⟩, fun w => ?_, fun w => ?_⟩
  · rcases mem_filterMap_concat.mp hg with hg | hg
    · exact Nat.lt_succ_of_lt (h.fresh.given w g hg)
    obtain ⟨-, hg⟩ := Option.ite_none_right_eq_some.mp hg
    rw [← Option.some.inj hg, hfence]
    exact Nat.lt_succ_self _
  · rcases lookup_insert_eq_some hlookup with ⟨-, rfl⟩ | ⟨-, hold⟩
    · rw [hfence]
      exact Nat.lt_succ_self _
    · exact Nat.lt_succ_of_lt (h.fresh.live w session' hold)
  · refine (h.inOrder w).concat rfl (fun session' hlookup => ?_) (Nat.le_succ _)
    rcases lookup_insert_eq_some hlookup with ⟨-, rfl⟩ | ⟨-, hold⟩
    · exact .inr hfence
    · exact .inl ⟨session', hold, rfl, rfl⟩
  · refine (h.severed w).concat (fun session' hlookup => ?_) fun g hg => by cases hg
    rcases lookup_insert_eq_some hlookup with ⟨rfl, rfl⟩ | ⟨hne, hold⟩
    · rw [hfence]
      exact .inr (h.fresh.given _)
    · exact .inl ⟨hne.symm, session', hold, rfl⟩

theorem Fenced.step (heff : RegistryEffect s f s')
    (hroom : f.any isAdmission = true → s.nextFence < u64Max) : Fenced (facts ++ f.toList) s' := by
  cases heff with
  | swept _ hsessions hnext =>
    rw [Option.toList_none, append_nil]
    exact h.swept hsessions hnext
  | issued =>
    refine Fenced.frame ?_ (fun _ => rfl) (fun _ => rfl) (fun _ => rfl) fun _ => False.elim
    exact h.swept (.refl _) rfl
  | admitted _ _ _ hfence =>
    rw [saturatingAdd_of_le (hroom rfl)]
    exact h.enter hfence
  | beaten expiresAt hlookup =>
    refine h.acts hlookup rfl (fun _ => rfl) (fun _ => id) (fun _ => rfl) fun w' => ?_
    refine (h.inOrder w').concat rfl (fun session' hlookup' => ?_) le_rfl
    rcases lookup_insert_eq_some hlookup' with ⟨rfl, rfl⟩ | ⟨-, hold⟩
    · exact .inl ⟨_, hlookup, rfl, rfl⟩
    · exact .inl ⟨session', hold, rfl, rfl⟩
  | dispatched hlookup hsequence => exact h.dispatch hlookup hsequence
  | evicted =>
    refine Fenced.frame ?_ (fun _ => rfl) (fun _ => rfl) (fun _ => rfl) ?_
    · exact h.swept (shrinks_erase _ _) rfl
    · rintro w rfl
      exact AList.lookup_erase _ _

end

end Step

/-! ## Whole runs -/

def admissions (facts : List Fact) : Nat := facts.countP isAdmission

theorem admissions_append (facts : List Fact) (f : Option Fact) :
    admissions (facts ++ f.toList) = admissions facts + (f.any isAdmission).toNat := by
  rw [admissions, countP_append]
  cases f with
  | none => rfl
  | some f => cases f <;> rfl

/-- What holds of the registry and the facts so far. -/
structure RegistrySafe (facts : List Fact) (s : RegistryState) : Prop where
  ticketed : Ticketed facts s
  drawn : Drawn facts
  counted : s.nextFence = min (admissions facts + 1) u64Max
  fenced : admissions facts < u64Max → Fenced facts s

theorem RegistrySafe.step (h : RegistrySafe facts s) (heff : RegistryEffect s f s') :
    RegistrySafe (facts ++ f.toList) s' where
  ticketed := h.ticketed.step heff
  drawn := h.drawn.step h.ticketed heff
  counted := by
    rw [admissions_append]
    have hcounted := h.counted
    cases heff with
    | swept _ _ hnext => exact hnext.trans hcounted
    | issued | beaten | dispatched | evicted => exact hcounted
    | admitted =>
      change saturatingAdd s.nextFence 1 = min (admissions facts + 1 + 1) u64Max
      rw [saturatingAdd]
      omega
  fenced hfew := by
    rw [admissions_append] at hfew
    refine (h.fenced (by omega)).step heff fun hadmission => ?_
    rw [hadmission] at hfew
    have hone : admissions facts + 1 < u64Max := hfew
    rw [h.counted]
    omega

end GtaClaw.Runtime
