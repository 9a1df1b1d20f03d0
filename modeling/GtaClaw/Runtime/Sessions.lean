import GtaClaw.Lib.Table
import GtaClaw.Runtime.Suspend

/-!
# The registry of conversations

Which sessions the runtime holds in memory, which of them has a turn in flight and which
are on their way out. Every function here is one section under the registry's lock. The
tokens of a live turn are those of the `submit_with` call that claimed it, so a live turn
names that call. `owner` is what the runtime relies on: only `claim` and `release` change
it.
-/

namespace GtaClaw.Runtime

open Lib Function Option

inductive RuntimeError where
  | port (error : PortError)
  | quiescing (refused : WorkRefused)
  | shuttingDown
  | turnInFlight (turn : Nat)
  | sessionCapacityReached (capacity : Nat)
  | sessionRetiring
  | reloadFenced (expected current : Nat)

structure LiveTurn where
  turn : Nat
  /-- The `submit_with` call whose turn this is. -/
  call : Nat
  deriving DecidableEq

structure ManagedConversation where
  lastAccess : Timestamp
  accessOrder : Nat
  generation : Nat
  live : Option LiveTurn
  model : Option String
  retiring : Bool

structure ConversationRegistry where
  entries : Table SessionId ManagedConversation
  capacity : Nat
  idleTtl : Duration
  generation : Nat
  nextAccess : Nat

namespace ConversationRegistry

def new (capacity : Nat) (idleTtl : Duration) : ConversationRegistry :=
  ⟨∅, max capacity 1, idleTtl, 0, 1⟩

def expired (idleTtl : Duration) (now : Timestamp) (entry : ManagedConversation) : Bool :=
  entry.live.isNone && match entry.lastAccess.checkedAdd idleTtl with
    | some deadline => ¬now ≤ deadline
    | none => false

variable (r : ConversationRegistry)

/-- Removes the idle sessions that nobody used for too long, retiring ones among them. -/
def sweep (now : Timestamp) : ConversationRegistry :=
  { r with entries := r.entries.retain fun _ entry => !expired r.idleTtl now entry }

/-- Before the other in the order of eviction. -/
def older (a b : Sigma fun _ : SessionId => ManagedConversation) : Bool :=
  a.2.accessOrder < b.2.accessOrder ||
    (a.2.accessOrder == b.2.accessOrder && a.1.asStr < b.1.asStr)

/-- `Iterator::min_by`. -/
def oldest : List (Sigma fun _ : SessionId => ManagedConversation) →
    Option (Sigma fun _ : SessionId => ManagedConversation)
  | [] => none
  | e :: rest =>
    match oldest rest with
    | none => some e
    | some e' => some (if older e' e then e' else e)

def evictable (entry : ManagedConversation) : Bool := entry.live.isNone && !entry.retiring

def makeRoom : Except RuntimeError (Option SessionId × ConversationRegistry) :=
  if r.entries.entries.length < r.capacity then .ok (none, r)
  else match oldest (r.entries.entries.filter fun e => evictable e.2) with
    | none => .error (.sessionCapacityReached r.capacity)
    | some candidate => .ok (some candidate.1, { r with entries := r.entries.erase candidate.1 })

variable (sessionId : SessionId)

/-- Room for a session that is not there. -/
def roomFor : Except RuntimeError (Option SessionId × ConversationRegistry) :=
  if (r.entries.lookup sessionId).isSome then .ok (none, r) else r.makeRoom

/-- Uses the entry of a session, or a new one of the generation given. -/
def touch (generation : Nat) (now : Timestamp)
    (change : ManagedConversation → ManagedConversation) : ConversationRegistry :=
  let entry := (r.entries.lookup sessionId).getD ⟨now, r.nextAccess, generation, none, none, false⟩
  { r with
    nextAccess := saturatingAdd r.nextAccess 1
    entries := r.entries.insert sessionId
      (change { entry with lastAccess := now, accessOrder := r.nextAccess }) }

def claim (expectedGeneration : Nat) (live : LiveTurn) (now : Timestamp) :
    Except RuntimeError (Option SessionId × ConversationRegistry) :=
  if expectedGeneration ≠ r.generation then
    .error (.reloadFenced expectedGeneration r.generation)
  else match r.entries.lookup sessionId with
    | some ⟨_, _, _, _, _, true⟩ => .error .sessionRetiring
    | some ⟨_, _, _, some inFlight, _, false⟩ => .error (.turnInFlight inFlight.turn)
    | _ => (r.roomFor sessionId).map fun (evicted, r) =>
      (evicted, r.touch sessionId expectedGeneration now
        ({ · with generation := expectedGeneration, live := some live }))

/-- Returns whether the session has to be removed now. -/
def release (turn generation : Nat) (now : Timestamp) : Bool × ConversationRegistry :=
  match r.entries.lookup sessionId with
  | some entry =>
    if entry.generation = generation ∧ entry.live.map (·.turn) = some turn then
      (entry.retiring, r.touch sessionId generation now ({ · with live := none }))
    else (false, { r with nextAccess := saturatingAdd r.nextAccess 1 })
  | none => (false, { r with nextAccess := saturatingAdd r.nextAccess 1 })

def finishRetirement (generation : Nat) : ConversationRegistry :=
  match r.entries.lookup sessionId with
  | some entry =>
    if entry.retiring ∧ entry.live.isNone ∧ entry.generation = generation then
      { r with entries := r.entries.erase sessionId }
    else r
  | none => r

def clear : ConversationRegistry := { r with entries := ∅ }

/-! ## Who owns a session -/

/-- The live turn of a session, and the generation it was claimed in. -/
def owner : Option (LiveTurn × Nat) :=
  (r.entries.lookup sessionId).bind fun entry => entry.live.map (·, entry.generation)

variable {r r' : ConversationRegistry} {sessionId k : SessionId} {generation turn : Nat}
  {live : LiveTurn} {now : Timestamp} {evicted : Option SessionId}

theorem owner_eq_some : r.owner k = some (live, generation) ↔
    ∃ entry, r.entries.lookup k = some entry ∧ entry.live = some live ∧
      entry.generation = generation := by
  simp [owner, bind_eq_some_iff]

theorem owner_insert (r : ConversationRegistry) (k : SessionId) (entry : ManagedConversation)
    (n : Nat) : owner { r with nextAccess := n, entries := r.entries.insert k entry }
      = update r.owner k (entry.live.map (·, entry.generation)) := by
  funext k'
  unfold owner
  by_cases hk : k' = k
  · subst hk
    rw [AList.lookup_insert, update_self]
    rfl
  · rw [AList.lookup_insert_ne hk, update_of_ne hk]

theorem owner_erase (h : r.owner k = none) : owner { r with entries := r.entries.erase k } = r.owner := by
  funext k'
  unfold owner at h ⊢
  by_cases hk : k' = k
  · subst hk
    rw [AList.lookup_erase, h]
    rfl
  · rw [AList.lookup_erase_ne hk]

@[simp] theorem sweep_owner (r : ConversationRegistry) (now : Timestamp) :
    (r.sweep now).owner = r.owner := by
  funext k
  unfold owner sweep
  rw [Table.lookup_retain]
  -- what is swept has no turn
  cases r.entries.lookup k with
  | none => rfl
  | some entry => grind [expired, isNone_iff_eq_none]

theorem oldest_mem : ∀ {es : List (Sigma fun _ : SessionId => ManagedConversation)} {e},
    oldest es = some e → e ∈ es
  | [], _, h => by cases h
  | e' :: rest, e, h => by
    have ih := @oldest_mem rest
    unfold oldest at h
    grind

theorem roomFor_owner (h : r.roomFor k = .ok (evicted, r')) : r'.owner = r.owner := by
  have hevicted : ∀ candidate,
      oldest (r.entries.entries.filter fun e => evictable e.2) = some candidate →
      r.owner candidate.1 = none := by
    intro candidate hcandidate
    obtain ⟨hmem, hevictable⟩ := List.mem_filter.mp (oldest_mem hcandidate)
    have hlookup : r.entries.lookup candidate.1 = some candidate.2 := AList.mem_lookup_iff.mpr hmem
    grind [owner, evictable, isNone_iff_eq_none]
  unfold roomFor makeRoom at h
  grind [owner_erase]

/-- **A claim** is made on a session without a turn. -/
theorem claim_ok (h : r.claim sessionId generation live now = .ok (evicted, r')) :
    r.owner sessionId = none ∧
      r'.owner = update r.owner sessionId (some (live, generation)) := by
  have hroom : ∀ {x}, (r.roomFor sessionId).map (fun (evicted, r) =>
      (evicted, r.touch sessionId generation now
        ({ · with generation := generation, live := some live }))) = .ok x →
      x.2.owner = update r.owner sessionId (some (live, generation)) := by
    intro x hx
    obtain ⟨⟨evicted, room⟩, hroom, rfl⟩ := map_ok hx
    dsimp only [touch]
    rw [owner_insert, roomFor_owner hroom]
    rfl
  unfold claim at h
  split at h
  · cases h
  · split at h
    · cases h
    · cases h
    · rename_i hretiring hlive
      refine ⟨?_, hroom h⟩
      rw [eq_none_iff_forall_not_mem]
      intro ⟨inFlight, g⟩ howner
      obtain ⟨⟨_, _, _, _, _, retiring⟩, hlookup, hentry, -⟩ := owner_eq_some.mp howner
      cases hentry
      cases retiring with
      | true => exact hretiring _ _ _ _ _ hlookup
      | false => exact hlive _ _ _ _ _ hlookup

/-- **A release** takes effect for the turn that owns the session, and for no other. -/
theorem release_owner (r : ConversationRegistry) (sessionId : SessionId) (turn generation : Nat)
    (now : Timestamp) : (r.release sessionId turn generation now).2.owner
      = if (r.owner sessionId).map (fun o => (o.1.turn, o.2)) = some (turn, generation) then
          update r.owner sessionId none
        else r.owner := by
  have hinsert := fun entry => owner_insert r sessionId entry (saturatingAdd r.nextAccess 1)
  unfold release
  cases hlookup : r.entries.lookup sessionId with
  | none => grind [owner]
  | some entry => cases hlive : entry.live <;> grind [owner, touch]

@[simp] theorem finishRetirement_owner (r : ConversationRegistry) (sessionId : SessionId)
    (generation : Nat) : (r.finishRetirement sessionId generation).owner = r.owner := by
  unfold finishRetirement
  split
  · rename_i entry hlookup
    split_ifs with hremovable
    · exact owner_erase (by simp [owner, hlookup, isNone_iff_eq_none.mp hremovable.2.1])
    · rfl
  · rfl

end ConversationRegistry

end GtaClaw.Runtime
