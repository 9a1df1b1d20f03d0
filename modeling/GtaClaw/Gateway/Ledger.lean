import GtaClaw.Gateway.Events

/-!
# What the bus owes its subscribers

Runs of the bus are sequences of calls on it and on the handles that are held.
Beside each run goes a book with one ledger per registration, in the order they
were made. It is kept by the calls and their answers, not by the state of the bus:
a publication is owed to every registration that has not ended and that admits
it, and a registration ends when its own connection is unsubscribed or registered
again, or when its own handle is dropped.

The book is what the bus is for. `Justified` reads a delivery against it.
-/

namespace GtaClaw.Gateway

open Lib

variable {Payload χ : Type} [Channel χ (EventEnvelope Payload)]

/-! ## Runs -/

inductive Op (Payload : Type) where
  | subscribe (id : ConnectionId) (role : Role) (scopes : List OperatorScope) (filter : Nat)
  | subscribeForDevice (id : ConnectionId) (role : Role) (scopes : List OperatorScope)
      (filter : Nat) (deviceId : String)
  | publish (draft : EventDraft Payload)
  | recv (subscription : EventSubscription)
  | tryRecv (subscription : EventSubscription)
  | unsubscribe (id : ConnectionId)
  | drop (subscription : EventSubscription)
  | reauthorize (id : ConnectionId) (role : Role) (scopes : List OperatorScope)
  /-- A connection changes the filter it keeps. -/
  | setFilter (filter : Nat) (value : TopicFilter)

inductive Answer (Payload : Type) where
  | subscription (subscription : EventSubscription)
  | published (ordinal : Option EventSequence)
  | received (delivery : Option (Delivery Payload))
  | reauthorized (found : Bool)
  | done
  deriving DecidableEq, Repr

/-- The bus, the filters and the handles that are held. -/
structure World (χ : Type) where
  bus : EventBus χ
  filters : Nat → TopicFilter
  held : List EventSubscription

/-- One call; a handle that is not held cannot be used. -/
def World.step (w : World χ) : Op Payload → Answer Payload × World χ
  | .subscribe id role scopes filter =>
    let (s, bus) := w.bus.subscribe id role scopes filter
    (.subscription s, { w with bus, held := s :: w.held })
  | .subscribeForDevice id role scopes filter deviceId =>
    let (s, bus) := w.bus.subscribeForDevice id role scopes filter deviceId
    (.subscription s, { w with bus, held := s :: w.held })
  | .publish draft =>
    let (ordinal, bus) := w.bus.publish w.filters draft
    (.published ordinal, { w with bus })
  | .recv s =>
    if s ∈ w.held then
      let (delivery, bus) := s.recv w.bus
      (.received delivery, { w with bus })
    else (.done, w)
  | .tryRecv s =>
    if s ∈ w.held then
      let (delivery, bus) := s.tryRecv w.bus
      (.received delivery, { w with bus })
    else (.done, w)
  | .unsubscribe id => (.done, { w with bus := w.bus.unsubscribe id })
  | .drop s =>
    if s ∈ w.held then (.done, { w with bus := s.drop w.bus, held := w.held.filter (· != s) })
    else (.done, w)
  | .reauthorize id role scopes =>
    let (found, bus) := w.bus.reauthorize id role scopes
    (.reauthorized found, { w with bus })
  | .setFilter filter value => (.done, { w with filters := Function.update w.filters filter value })

/-! ## The book -/

/-- One registration, what it is owed, and what its handle has been given. -/
structure Ledger (Payload : Type) extends Registration where
  ended : Bool
  owed : List (EventEnvelope Payload)
  delivered : List (EventEnvelope Payload)

namespace Ledger

def start (r : Registration) : Ledger Payload := ⟨r, false, [], []⟩

def finish (l : Ledger Payload) : Ledger Payload := { l with ended := true }

def finishOf (id : ConnectionId) (l : Ledger Payload) : Ledger Payload :=
  if l.id = id then l.finish else l

def publish (filters : Nat → TopicFilter) (envelope : EventEnvelope Payload) (l : Ledger Payload) :
    Ledger Payload :=
  if l.ended = false ∧ l.admits filters envelope = true then
    { l with owed := l.owed ++ [envelope] }
  else l

def deliver (delivery : Option (Delivery Payload)) (l : Ledger Payload) : Ledger Payload :=
  match delivery with
  | some (.event envelope) => { l with delivered := l.delivered ++ [envelope] }
  | _ => l

def reauthorize (id : ConnectionId) (role : Role) (scopes : List OperatorScope)
    (l : Ledger Payload) : Ledger Payload :=
  if l.id = id then { l with role, scopes } else l

end Ledger

/-- One ledger per registration, in order. -/
abbrev Book (Payload : Type) := List (Ledger Payload)

/-- The book after a call on `w` was answered. -/
def Book.record (w : World χ) (book : Book Payload) : Op Payload → Answer Payload → Book Payload
  | .subscribe id role scopes filter, _ =>
    book.map (·.finishOf id) ++ [.start ⟨id, none, role, scopes, filter⟩]
  | .subscribeForDevice id role scopes filter deviceId, _ =>
    book.map (·.finishOf id) ++ [.start
      ⟨id, if validDeviceId deviceId then some deviceId else none, role, scopes, filter⟩]
  | .publish draft, .published (some ordinal) =>
    book.map (·.publish w.filters { draft with ordinal })
  | .recv s, .received delivery => book.modify s.link (·.deliver delivery)
  | .tryRecv s, .received delivery => book.modify s.link (·.deliver delivery)
  | .unsubscribe id, _ => book.map (·.finishOf id)
  | .drop s, _ => if s ∈ w.held then book.modify s.link (·.finish) else book
  | .reauthorize id role scopes, _ => book.map (·.reauthorize id role scopes)
  | _, _ => book

/-- One call on the bus, entered into the book. -/
def advance (s : World χ × Book Payload) (op : Op Payload) : World χ × Book Payload :=
  ((s.1.step op).2, s.2.record s.1 op (s.1.step op).1)

def advanceAll (s : World χ × Book Payload) (ops : List (Op Payload)) : World χ × Book Payload :=
  ops.foldl advance s

def World.start (bus : EventBus χ) (filters : Nat → TopicFilter) : World χ := ⟨bus, filters, []⟩

/-- The calls on a new bus: where they lead, and the book of them. -/
def runOf (bus : EventBus χ) (filters : Nat → TopicFilter) (ops : List (Op Payload)) :
    World χ × Book Payload := advanceAll (.start bus filters, []) ops

/-- What the next delivery of a subscription may be, by its ledger. -/
def Ledger.Justified (l : Ledger Payload) : Option (Delivery Payload) → Prop
  | some (.event envelope) => ∃ rest, l.owed = l.delivered ++ envelope :: rest
  | some (.lagged firstMissed) => ∃ envelope rest, l.owed = l.delivered ++ envelope :: rest
      ∧ envelope.ordinal = firstMissed
  | some .closed => l.ended = true ∧ l.delivered = l.owed
  | none => l.ended = false ∧ l.delivered = l.owed

/-! ## Ledgers under the calls -/

namespace Ledger

variable (id : ConnectionId) (l : Ledger Payload)

theorem finishOf_registration : (l.finishOf id).toRegistration = l.toRegistration := by
  unfold finishOf
  split
  · rfl
  · rfl

theorem finishOf_lists :
    (l.finishOf id).owed = l.owed ∧ (l.finishOf id).delivered = l.delivered := by
  unfold finishOf
  split
  · exact ⟨rfl, rfl⟩
  · exact ⟨rfl, rfl⟩

theorem finishOf_ended : (l.finishOf id).ended = false ↔ l.id ≠ id ∧ l.ended = false := by
  unfold finishOf
  split_ifs with h
  · exact ⟨fun hf => Bool.noConfusion hf, fun hf => absurd h hf.1⟩
  · exact ⟨fun he => ⟨h, he⟩, fun hf => hf.2⟩

theorem publish_registration (filters : Nat → TopicFilter) (e : EventEnvelope Payload) :
    (l.publish filters e).toRegistration = l.toRegistration
      ∧ (l.publish filters e).ended = l.ended := by
  unfold publish
  split
  · exact ⟨rfl, rfl⟩
  · exact ⟨rfl, rfl⟩

theorem deliver_registration (delivery : Option (Delivery Payload)) :
    (l.deliver delivery).toRegistration = l.toRegistration
      ∧ (l.deliver delivery).ended = l.ended := by
  unfold deliver
  split
  · exact ⟨rfl, rfl⟩
  · exact ⟨rfl, rfl⟩

theorem reauthorize_same (role : Role) (scopes : List OperatorScope) :
    (l.reauthorize id role scopes).id = l.id ∧ (l.reauthorize id role scopes).ended = l.ended
      ∧ (l.reauthorize id role scopes).owed = l.owed
      ∧ (l.reauthorize id role scopes).delivered = l.delivered := by
  unfold reauthorize
  split
  · exact ⟨rfl, rfl, rfl, rfl⟩
  · exact ⟨rfl, rfl, rfl, rfl⟩

end Ledger

variable {book : Book Payload} {l : Ledger Payload} {c : Nat} {f : Ledger Payload → Ledger Payload}

theorem Book.map_some
    {l' : Ledger Payload} (h : (book.map f)[c]? = some l') : ∃ l, book[c]? = some l ∧ f l = l' := by
  rw [List.getElem?_map] at h
  exact Option.map_eq_some_iff.mp h

theorem Book.map_get (f : Ledger Payload → Ledger Payload)
    (h : book[c]? = some l) : (book.map f)[c]? = some (f l) := by
  rw [List.getElem?_map, h]
  rfl

theorem Book.modify_some {k c : Nat} {l' : Ledger Payload} (h : (book.modify k f)[c]? = some l') :
    ∃ l, book[c]? = some l ∧ l' = if k = c then f l else l := by
  rw [List.getElem?_modify] at h
  obtain ⟨l, hl, he⟩ := Option.map_eq_some_iff.mp h
  exact ⟨l, hl, he.symm⟩

theorem Book.modify_get (f : Ledger Payload → Ledger Payload) (k : Nat) (h : book[c]? = some l) :
    (book.modify k f)[c]? = some (if k = c then f l else l) := by
  rw [List.getElem?_modify, h]
  rfl

theorem Book.concat_get (l' : Ledger Payload)
    (h : book[c]? = some l) : (book ++ [l'])[c]? = some l := by
  rw [List.getElem?_append_left (getElem?_eq_some_iff.mp h).1]
  exact h

/-! ## Handles that outlive their registration -/

/-- Dropping a handle removes no other registration. -/
def World.KeepsOthers (w : World χ) : Op Payload → Prop
  | .drop s => s ∈ w.held → ∀ r ∈ w.bus.subscribers, r.id = s.id → r.link = s.link
  | _ => True

def World.KeepsOthersAll (w : World χ) : List (Op Payload) → Prop
  | [] => True
  | op :: ops => w.KeepsOthers op ∧ (w.step op).2.KeepsOthersAll ops

end GtaClaw.Gateway
