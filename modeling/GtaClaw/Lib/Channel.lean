import Mathlib.Tactic

/-!
# Bounded channels

A bounded single-consumer channel behaves as a first-in first-out queue that is
open or closed at each end. `Queue` is that behaviour. `Channel` is the interface
a program calls, and `LawfulChannel` says that an implementation can be viewed as
a queue: every call answers as the queue does and leaves a channel whose view is
what the queue would be. Programs are written against `Channel`; their proofs look
at views only. A queue is a channel itself.
-/

namespace GtaClaw.Lib

/-- What a receiver gets. -/
inductive Received (α : Type) where
  | value (a : α)
  /-- Nothing is queued, and the sending end is open. -/
  | empty
  /-- Nothing is queued, and nothing will be. -/
  | disconnected
  deriving DecidableEq, Repr

/-- What is queued, how much can be, and which ends are open. -/
structure Queue (α : Type) where
  contents : List α
  capacity : Nat
  sending : Bool
  receiving : Bool
  deriving DecidableEq, Repr

namespace Queue

variable {α : Type}

def channel (capacity : Nat) : Queue α := ⟨[], capacity, true, true⟩

/-- Sending never waits: a full queue and one without a receiver refuse. -/
def trySend (q : Queue α) (a : α) : Bool × Queue α :=
  if q.receiving = true ∧ q.contents.length < q.capacity then
    (true, { q with contents := q.contents ++ [a] })
  else (false, q)

def recv (q : Queue α) : Received α × Queue α :=
  match q.contents with
  | a :: rest => (.value a, { q with contents := rest })
  | [] => (if q.sending then .empty else .disconnected, q)

def dropSender (q : Queue α) : Queue α := { q with sending := false }

/-- What was queued goes with the receiver. -/
def dropReceiver (q : Queue α) : Queue α := { q with contents := [], receiving := false }

/-- **What a send does**: the value is last in line, or nothing happens. -/
theorem trySend_cases (q : Queue α) (a : α) :
    q.trySend a = (true, { q with contents := q.contents ++ [a] }) ∨ q.trySend a = (false, q) := by
  unfold trySend
  split
  · exact .inl rfl
  · exact .inr rfl

/-- **What a receive does**: the first in line, or a report on the sending end. -/
theorem recv_cases (q : Queue α) :
    (∃ a rest, q.contents = a :: rest ∧ q.recv = (.value a, { q with contents := rest }))
      ∨ (q.contents = [] ∧ q.sending = true ∧ q.recv = (.empty, q))
      ∨ (q.contents = [] ∧ q.sending = false ∧ q.recv = (.disconnected, q)) := by
  unfold recv
  cases q.contents with
  | cons a rest => exact .inl ⟨a, rest, rfl, rfl⟩
  | nil =>
    cases hs : q.sending with
    | true => exact .inr (.inl ⟨rfl, rfl, rfl⟩)
    | false => exact .inr (.inr ⟨rfl, rfl, rfl⟩)

end Queue

/-- The calls of a bounded channel, on the state both ends share. -/
class Channel (χ : Type) (α : outParam Type) where
  channel : Nat → χ
  trySend : χ → α → Bool × χ
  recv : χ → Received α × χ
  dropSender : χ → χ
  dropReceiver : χ → χ

/-- The channel can be viewed as a queue. -/
class LawfulChannel (χ : Type) (α : outParam Type) [Channel χ α] where
  view : χ → Queue α
  view_channel : ∀ n, view (Channel.channel n) = Queue.channel n
  trySend_fst : ∀ (c : χ) a, (Channel.trySend c a).1 = ((view c).trySend a).1
  view_trySend : ∀ (c : χ) a, view (Channel.trySend c a).2 = ((view c).trySend a).2
  recv_fst : ∀ c : χ, (Channel.recv c).1 = (view c).recv.1
  view_recv : ∀ c : χ, view (Channel.recv c).2 = (view c).recv.2
  view_dropSender : ∀ c : χ, view (Channel.dropSender c) = (view c).dropSender
  view_dropReceiver : ∀ c : χ, view (Channel.dropReceiver c) = (view c).dropReceiver

instance (α : Type) : Channel (Queue α) α where
  channel := Queue.channel
  trySend := Queue.trySend
  recv := Queue.recv
  dropSender := Queue.dropSender
  dropReceiver := Queue.dropReceiver

instance (α : Type) : LawfulChannel (Queue α) α where
  view := id
  view_channel _ := rfl
  trySend_fst _ _ := rfl
  view_trySend _ _ := rfl
  recv_fst _ := rfl
  view_recv _ := rfl
  view_dropSender _ := rfl
  view_dropReceiver _ := rfl

/-! ## Many channels behind addresses -/

section UpdateEach

variable {β γ : Type} (key : β → Nat) (f : β → γ → γ)

/-- Changes what stands at the key of each element, one after the other. -/
def updateEach (store : Nat → γ) (xs : List β) : Nat → γ :=
  xs.foldl (fun store x => Function.update store (key x) (f x (store (key x)))) store

theorem updateEach_cons (store : Nat → γ) (x : β) (xs : List β) :
    updateEach key f store (x :: xs)
      = updateEach key f (Function.update store (key x) (f x (store (key x)))) xs := rfl

theorem updateEach_of_notMem {k : Nat} : ∀ {xs : List β} (store : Nat → γ),
    (∀ x ∈ xs, key x ≠ k) → updateEach key f store xs k = store k
  | [], _, _ => rfl
  | x :: xs, store, h => by
    have hx : k ≠ key x := (h x List.mem_cons_self).symm
    rw [updateEach_cons,
      updateEach_of_notMem _ (List.forall_mem_cons.mp h).2,
      Function.update_of_ne hx]

theorem updateEach_of_mem {x : β} : ∀ {xs : List β} (store : Nat → γ), (xs.map key).Nodup →
    x ∈ xs → updateEach key f store xs (key x) = f x (store (key x))
  | [], _, _, hx => absurd hx List.not_mem_nil
  | y :: ys, store, hnd, hx => by
    rw [List.map_cons, List.nodup_cons] at hnd
    have hys : ∀ z ∈ ys, key z ≠ key y := by
      intro z hz he
      exact hnd.1 (he ▸ List.mem_map_of_mem hz)
    rw [updateEach_cons]
    rcases List.mem_cons.mp hx with rfl | hx
    · rw [updateEach_of_notMem key f _ hys, Function.update_self]
    · rw [updateEach_of_mem _ hnd.2 hx, Function.update_of_ne (hys x hx)]

/-- A change at another key can be made before or after. -/
theorem updateEach_update {k : Nat} : ∀ {xs : List β} (store : Nat → γ) (v : γ),
    (∀ x ∈ xs, key x ≠ k) → updateEach key f (Function.update store k v) xs
      = Function.update (updateEach key f store xs) k v
  | [], _, _, _ => rfl
  | x :: xs, store, v, h => by
    have hx := h x List.mem_cons_self
    rw [updateEach_cons, updateEach_cons, Function.update_of_ne hx, Function.update_comm hx.symm,
      updateEach_update _ v (List.forall_mem_cons.mp h).2]

end UpdateEach

end GtaClaw.Lib
