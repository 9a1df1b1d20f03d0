import GtaClaw.Lib.Run
import Mathlib.Data.List.Infix

/-!
# The configuration hub

Publishers replace the snapshot in force and tell every subscriber. Each holds the
subscriber lock from before the swap until after the last send, so a join falls
between two publications. The value types of the domains are parameters, and so is
`parse`, which reads nothing shared. No code panics under a lock, so none is poisoned.
-/

namespace GtaClaw.Config

open Lib List

inductive ConfigDomain where
  | auth | role | channels | server | logging | sessions | copilot | provider
  | legacySkills | updates | admin | network
deriving DecidableEq

/-- `CoreConfig`: one value for each domain. -/
structure ConfigSnapshot (V : ConfigDomain → Type) where
  auth : V .auth
  role : V .role
  channels : V .channels
  server : V .server
  logging : V .logging
  sessions : V .sessions
  copilot : V .copilot
  provider : V .provider
  legacySkills : V .legacySkills
  updates : V .updates
  admin : V .admin
  network : V .network

variable {V : ConfigDomain → Type}

def ConfigSnapshot.get (s : ConfigSnapshot V) : ∀ domain, V domain
  | .auth => s.auth
  | .role => s.role
  | .channels => s.channels
  | .server => s.server
  | .logging => s.logging
  | .sessions => s.sessions
  | .copilot => s.copilot
  | .provider => s.provider
  | .legacySkills => s.legacySkills
  | .updates => s.updates
  | .admin => s.admin
  | .network => s.network

def restartRequired : ConfigDomain → Bool
  | .auth | .channels | .server | .admin | .network | .provider => true
  | _ => false

structure ConfigChange (V : ConfigDomain → Type) where
  previous : ConfigSnapshot V
  current : ConfigSnapshot V
  changedDomains : List ConfigDomain
  restartRequiredDomains : List ConfigDomain

/-- A subscription and its channel. -/
structure Channel (V : ConfigDomain → Type) where
  /-- The receiver has not been dropped. -/
  alive : Bool := true
  /-- The sender is still in the vector of subscribers. -/
  registered : Bool := true
  pending : List (ConfigChange V) := []

/-- What the publisher that holds the subscriber lock has got to. -/
inductive Phase (V : ConfigDomain → Type) where
  | locked (candidate : ConfigSnapshot V)
  /-- The snapshot is replaced, and `retain` is at this sender. -/
  | sending (change : ConfigChange V) (next : Nat)

structure ConfigHub (V : ConfigDomain → Type) where
  current : ConfigSnapshot V
  /-- In the order they joined. -/
  channels : List (Channel V) := []
  holder : Option (Phase V) := none

inductive Action (Source : Type) where
  /-- `reload_json5` as far as the lock. -/
  | reload (source : Source)
  /-- The publisher that holds the lock goes on. -/
  | publish
  | subscribe
  | tryRecv (id : Nat)
  | leave (id : Nat)

inductive Answer (V : ConfigDomain → Type) (E : Type) where
  | rejected (error : E)
  | blocked
  | locked
  | committed (change : ConfigChange V)
  | returned (change : ConfigChange V)
  | joined (id : Nat)
  | received (change : ConfigChange V)
  | done

/-- `retain` keeps the senders whose receiver is still there. -/
def Channel.send (c : Channel V) (change : ConfigChange V) : Channel V :=
  if c.registered then
    if c.alive then { c with pending := c.pending ++ [change] } else { c with registered := false }
  else c

variable {Source E : Type}

/-- The changes committed, in order. -/
def commits (past : List (Action Source × Answer V E)) : List (ConfigChange V) :=
  past.filterMap fun
    | (_, .committed change) => some change
    | _ => none

/-- The changes that `try_recv` handed to a subscriber, in order. -/
def receipts (id : Nat) (past : List (Action Source × Answer V E)) : List (ConfigChange V) :=
  past.filterMap fun
    | (.tryRecv k, .received change) => if k = id then some change else none
    | _ => none

/-- Each change starts from the snapshot that the one before it put in force. -/
def Chain : ConfigSnapshot V → List (ConfigChange V) → ConfigSnapshot V → Prop
  | s, [], t => s = t
  | s, change :: rest, t => change.previous = s ∧ Chain change.current rest t

/-- What the publisher has still to send to a subscriber. -/
def due (id : Nat) : Option (Phase V) → List (ConfigChange V)
  | some (.sending change next) => if next ≤ id then [change] else []
  | _ => []

/-- A subscriber that stays misses nothing; one that left has got the first changes. -/
def Channel.Follows (c : Channel V) (got due log : List (ConfigChange V)) : Prop :=
  got <+: log ∧ (c.alive = true → c.registered = true ∧ got ++ c.pending ++ due = log)

variable {s : ConfigSnapshot V} {got log : List (ConfigChange V)} {c : Channel V} {id : Nat}
  {past : List (Action Source × Answer V E)} {w w' : ConfigHub V} {change : ConfigChange V}

theorem commits_append {since : List (Action Source × Answer V E)} :
    commits (past ++ since) = commits past ++ commits since := filterMap_append

theorem receipts_append {since : List (Action Source × Answer V E)} :
    receipts id (past ++ since) = receipts id past ++ receipts id since := filterMap_append

theorem receipts_received (k : Nat) :
    receipts id ([(.tryRecv k, .received change)] : List (Action Source × Answer V E))
    = if k = id then [change] else [] := by
  simp only [receipts, filterMap_cons, filterMap_nil]
  split_ifs <;> rfl

theorem Chain.concat : ∀ {log : List (ConfigChange V)} {s : ConfigSnapshot V},
    Chain s log change.previous → Chain s (log ++ [change]) change.current
  | [], _, h => ⟨h.symm, rfl⟩
  | _ :: _, _, h => ⟨h.1, h.2.concat⟩

/-- A commit, while the change is still to be sent to everyone. -/
theorem Channel.Follows.commit (h : c.Follows got [] log) :
    c.Follows got [change] (log ++ [change]) := by
  refine ⟨h.1.trans (prefix_append _ _), fun halive => ?_⟩
  obtain ⟨hreg, hlog⟩ := h.2 halive
  rw [append_nil] at hlog
  exact ⟨hreg, congrArg (· ++ [change]) hlog⟩

theorem Channel.Follows.send (h : c.Follows got [change] log) :
    (c.send change).Follows got [] log := by
  unfold Channel.send
  split
  · split
    · refine ⟨h.1, fun halive => ?_⟩
      obtain ⟨hreg, hlog⟩ := h.2 halive
      rw [append_nil, ← append_assoc]
      exact ⟨hreg, hlog⟩
    · exact ⟨h.1, fun halive => absurd halive ‹_›⟩
  · exact ⟨h.1, fun halive => absurd (h.2 halive).1 ‹_›⟩

theorem due_of_lt {next : Nat} (h : id < next) : due id (some (.sending change next)) = [] :=
  if_neg (by omega)

/-- A subscriber that joined with snapshot `s` in force, and what happened since. -/
def Inv (s : ConfigSnapshot V) (id : Nat) (past : List (Action Source × Answer V E))
    (w : ConfigHub V) : Prop :=
  Chain s (commits past) w.current ∧ id < w.channels.length ∧
    ∀ c, w.channels[id]? = some c → c.Follows (receipts id past) (due id w.holder) (commits past)

theorem Inv.other {e : Action Source × Answer V E} (h : Inv s id past w) (hnone : commits [e] = [])
    (hcurrent : w'.current = w.current) (hlen : w.channels.length ≤ w'.channels.length)
    (hfollows : ∀ c, w'.channels[id]? = some c →
      c.Follows (receipts id past ++ receipts id [e]) (due id w'.holder) (commits past)) :
    Inv s id (past ++ [e]) w' := by
  rw [Inv, commits_append, receipts_append, hnone, append_nil, hcurrent]
  exact ⟨h.1, h.2.1.trans_le hlen, hfollows⟩

/-- An event that commits nothing and hands nothing to the subscriber. -/
theorem Inv.idle {e : Action Source × Answer V E} (h : Inv s id past w) (hnone : commits [e] = [])
    (hgot : receipts id [e] = []) (hcurrent : w'.current = w.current)
    (hlen : w.channels.length ≤ w'.channels.length)
    (hfollows : ∀ c, w'.channels[id]? = some c →
      c.Follows (receipts id past) (due id w'.holder) (commits past)) :
    Inv s id (past ++ [e]) w' := by
  refine h.other hnone hcurrent hlen ?_
  rw [hgot, append_nil]
  exact hfollows

variable [∀ domain, DecidableEq (V domain)]

def changedDomains (previous candidate : ConfigSnapshot V) : List ConfigDomain :=
  [(ConfigDomain.auth, decide (previous.auth ≠ candidate.auth)),
    (.role, decide (previous.role ≠ candidate.role)),
    (.channels, decide (previous.channels ≠ candidate.channels)),
    (.server, decide (previous.server ≠ candidate.server)),
    (.logging, decide (previous.logging ≠ candidate.logging)),
    (.sessions, decide (previous.sessions ≠ candidate.sessions)),
    (.copilot, decide (previous.copilot ≠ candidate.copilot)),
    (.provider, decide (previous.provider ≠ candidate.provider)),
    (.legacySkills, decide (previous.legacySkills ≠ candidate.legacySkills)),
    (.updates, decide (previous.updates ≠ candidate.updates)),
    (.admin, decide (previous.admin ≠ candidate.admin)),
    (.network, decide (previous.network ≠ candidate.network))].filterMap
    fun (domain, changed) => if changed then some domain else none

def changeBetween (previous candidate : ConfigSnapshot V) : ConfigChange V :=
  { previous, current := candidate,
    changedDomains := changedDomains previous candidate,
    restartRequiredDomains := (changedDomains previous candidate).filter restartRequired }

variable (parse : Source → Except E (ConfigSnapshot V))

def step (w : ConfigHub V) : Action Source → Answer V E × ConfigHub V
  | .reload source =>
    match parse source, w.holder with
    | .error error, _ => (.rejected error, w)
    | .ok _, some _ => (.blocked, w)
    | .ok candidate, none => (.locked, { w with holder := some (.locked candidate) })
  | .publish =>
    match w.holder with
    | none => (.done, w)
    | some (.locked candidate) =>
      let change := changeBetween w.current candidate
      (.committed change, { w with current := candidate, holder := some (.sending change 0) })
    | some (.sending change next) =>
      match w.channels[next]? with
      | none => (.returned change, { w with holder := none })
      | some c =>
        (.done, { w with
          channels := w.channels.set next (c.send change)
          holder := some (.sending change (next + 1)) })
  | .subscribe =>
    match w.holder with
    | some _ => (.blocked, w)
    | none => (.joined w.channels.length, { w with channels := w.channels ++ [{}] })
  | .tryRecv id =>
    match w.channels[id]? with
    | some { pending := change :: rest, alive := true, registered } =>
      (.received change, { w with channels := w.channels.set id ⟨true, registered, rest⟩ })
    | _ => (.done, w)
  | .leave id =>
    match w.channels[id]? with
    | some c => (.done, { w with channels := w.channels.set id { c with alive := false } })
    | none => (.done, w)

variable {parse}

theorem inv_step (h : Inv s id past w) (a : Action Source) :
    Inv s id (past ++ [(a, (step parse w a).1)]) (step parse w a).2 := by
  have hfollows := h.2.2
  fun_cases step parse w a with
  | case1 | case2 | case4 | case8 | case11 | case13 => exact h.idle rfl rfl rfl le_rfl hfollows
  | case3 source candidate hfree _ =>
    refine h.idle rfl rfl rfl le_rfl fun c hc => ?_
    rw [hfree] at hfollows
    exact hfollows c hc
  | case5 candidate hlocked change =>
    rw [hlocked] at hfollows
    have hchain : Chain s (commits past) change.previous := h.1
    rw [Inv, commits_append, receipts_append]
    refine ⟨hchain.concat, h.2.1, fun c hc => ?_⟩
    rw [show receipts id [(Action.publish, Answer.committed change)] = [] from rfl, append_nil]
    exact (hfollows c hc).commit
  | case6 change next hsending hend =>
    -- the loop has passed every channel
    have hle : w.channels.length ≤ next := getElem?_eq_none_iff.mp hend
    rw [hsending, due_of_lt (h.2.1.trans_le hle)] at hfollows
    exact h.idle rfl rfl rfl le_rfl hfollows
  | case7 change next hsending sub hsub =>
    rw [hsending] at hfollows
    refine h.idle rfl rfl rfl length_set.ge fun c hc => ?_
    rcases getElem?_set_some hc with ⟨rfl, rfl⟩ | ⟨hne, hc⟩
    · simp only [due, Nat.le_refl, if_true] at hfollows
      rw [due_of_lt (by omega)]
      exact (hfollows sub hsub).send
    · have hiff : next + 1 ≤ id ↔ next ≤ id := by omega
      simp only [due, hiff]
      exact hfollows c hc
  | case9 hfree =>
    refine h.idle rfl rfl rfl (by simp) fun c hc => ?_
    rcases getElem?_concat_some hc with hc | ⟨hid, _⟩
    · exact hfollows c hc
    · exact absurd h.2.1 (hid ▸ lt_irrefl _)
  | case10 k registered change rest hk =>
    refine h.other rfl rfl length_set.ge fun c hc => ?_
    rw [receipts_received]
    rcases getElem?_set_some hc with ⟨rfl, rfl⟩ | ⟨hne, hc⟩
    · -- what was pending first has now been handed out last
      obtain ⟨_, hall⟩ := hfollows _ hk
      obtain ⟨hreg, hlog⟩ := hall rfl
      have hlog' : receipts id past ++ [change] ++ rest ++ due id w.holder = commits past := by
        rw [← hlog, append_assoc (receipts id past), singleton_append]
      rw [if_pos rfl]
      refine ⟨?_, fun _ => ⟨hreg, hlog'⟩⟩
      rw [← hlog', append_assoc _ rest]
      exact prefix_append _ _
    · rw [if_neg hne.symm, append_nil]
      exact hfollows c hc
  | case12 k sub hsub =>
    refine h.idle rfl rfl rfl length_set.ge fun c hc => ?_
    rcases getElem?_set_some hc with ⟨rfl, rfl⟩ | ⟨_, hc⟩
    · exact ⟨(hfollows sub hsub).1, fun halive => absurd halive Bool.false_ne_true⟩
    · exact hfollows c hc

/-- The snapshot that is in force once the publisher at work is done. -/
def ConfigHub.coming (w : ConfigHub V) : ConfigSnapshot V :=
  match w.holder with
  | some (.locked candidate) => candidate
  | _ => w.current

/-- `ConfigFileWatcher`, the only publisher of its hub. -/
structure Watcher (V : ConfigDomain → Type) (Bytes F : Type) where
  fingerprint : F
  hub : ConfigHub V
  /-- What the poll under way has read. -/
  reading : Option Bytes := none

section Watch

variable {Bytes F : Type} [DecidableEq F] (fingerprint : Bytes → F)
  (fromUtf8 : Bytes → Except E Source) (parse : Source → Except E (ConfigSnapshot V))

def load (bytes : Bytes) : Except E (ConfigSnapshot V) := fromUtf8 bytes >>= parse

/-- What the hub shows, or is about to show, was read from these bytes. -/
def Tracks (w : Watcher V Bytes F) : Prop :=
  ∃ bytes, load fromUtf8 parse bytes = .ok w.hub.coming ∧
    (w.reading = some bytes ∨
      w.reading = none ∧ w.hub.holder = none ∧ w.fingerprint = fingerprint bytes)

variable {fingerprint fromUtf8 parse} {w : Watcher V Bytes F}

end Watch

variable {Bytes F : Type} [DecidableEq F]

section Concrete

/-- A change is published while another candidate is rejected, and the subscriber gets it. -/
def delivery : List (Action (Option Bool)) :=
  [.reload (some true), .publish, .reload none, .publish, .publish, .tryRecv 0]

end Concrete

end GtaClaw.Config
