import GtaClaw.Lib.Channel

/-!
# The event bus

The bus gives every publication a process-wide ordinal and offers it to every
registered subscriber that its device, audience, visibility and topic filter
admit. A subscriber is a sender into a bounded channel; the receiver is the
subscription handle of one connection. Both ends also share a lag state: how many
bytes are queued, and the ordinal of the first publication that did not fit.

What the two ends share is a `Link` behind an address, and so is the topic filter
a connection keeps and the bus reads. Dropping a sender or a handle is explicit:
`retain` closes the channels of the subscribers it removes, and `drop` is the
destructor of a handle. The channel itself is a parameter.

Left out is what only the wire frame reads (the event descriptor and the state
version) and how a draft is built from the catalog.
-/

namespace GtaClaw.Gateway

open Lib

/-! ## Who may see what -/

structure ConnectionId where
  get : UInt64
  deriving DecidableEq, Repr

inductive Role where
  | operator
  | node
  | worker
  deriving DecidableEq, Repr

inductive OperatorScope where
  | admin
  | read
  | write
  | approvals
  | pairing
  | talkSecrets
  deriving DecidableEq, Repr

/-- Who is entitled to observe one catalogued event. -/
inductive EventVisibility where
  | handshake
  | allAuthenticated
  | node
  | operator (required : OperatorScope)
  deriving DecidableEq, Repr

def satisfies (granted : List OperatorScope) (required : OperatorScope) : Bool :=
  granted.contains .admin || granted.contains required
    || (required == .read && granted.contains .write)

def EventVisibility.admits (visibility : EventVisibility) (role : Role)
    (granted : List OperatorScope) : Bool :=
  match visibility with
  | .handshake => false
  | .allAuthenticated => role != .worker
  | .node => role == .node
  | .operator required => role == .operator && satisfies granted required

/-- Topic groups a connection can opt out of at runtime. -/
inductive TopicGroup where
  | sessionLifecycle
  | sessionMessages
  deriving DecidableEq, Repr

def TopicGroup.forEvent (event : String) : Option TopicGroup :=
  match event with
  | "sessions.changed" | "session.approval" | "session.operation" | "session.tool" =>
    some .sessionLifecycle
  | "session.message" => some .sessionMessages
  | _ => none

/-- Who a published event is addressed to. -/
inductive EventAudience where
  | broadcast
  | connection (target : ConnectionId)
  deriving DecidableEq, Repr

def EventAudience.excludes (audience : EventAudience) (id : ConnectionId) : Bool :=
  match audience with
  | .broadcast => false
  | .connection target => target != id

/-! ## Events -/

/-- A publication ordinal; zero is rejected. -/
structure EventSequence where
  get : UInt64
  positive : 1 ≤ get
  deriving DecidableEq, Repr

def EventSequence.new (value : UInt64) : Except String EventSequence :=
  if h : 1 ≤ value then .ok ⟨value, h⟩ else .error "event sequence must be positive"

theorem EventSequence.get_ne_zero (s : EventSequence) : s.get ≠ 0 := by
  intro hz
  have hpos := s.positive
  rw [hz] at hpos
  exact absurd hpos (by decide)

variable {Payload : Type}

structure EventDraft (Payload : Type) where
  name : String
  payload : Payload
  encodedLen : UInt64
  audience : EventAudience
  deviceId : Option String
  visibility : EventVisibility
  sessionId : Option String
  deriving DecidableEq, Repr

structure EventEnvelope (Payload : Type) extends EventDraft Payload where
  ordinal : EventSequence
  deriving DecidableEq, Repr

/-- Per-connection filter; an empty allowlist means every session. -/
structure TopicFilter where
  lifecycle : Bool := true
  messages : Bool := true
  sessions : Finset String := ∅

def TopicFilter.admits (filter : TopicFilter) (envelope : EventEnvelope Payload) : Bool :=
  match TopicGroup.forEvent envelope.name with
  | none => true
  | some group =>
    let subscribed := match group with
      | .sessionLifecycle => filter.lifecycle
      | .sessionMessages => filter.messages
    subscribed && match envelope.sessionId with
      | none => true
      | some session => decide (filter.sessions = ∅) || decide (session ∈ filter.sessions)

namespace TopicFilter

def subscribe (filter : TopicFilter) (group : TopicGroup) (sessions : List String) : TopicFilter :=
  let filter := match group with
    | .sessionLifecycle => { filter with lifecycle := true }
    | .sessionMessages => { filter with messages := true }
  { filter with sessions := filter.sessions ∪ sessions.toFinset }

def unsubscribe (filter : TopicFilter) (group : TopicGroup) (sessions : List String) :
    TopicFilter :=
  if sessions.isEmpty then match group with
    | .sessionLifecycle => { filter with lifecycle := false }
    | .sessionMessages => { filter with messages := false }
  else { filter with sessions := sessions.foldl Finset.erase filter.sessions }

theorem mem_foldl_erase {session : String} : ∀ (removed : List String) (sessions : Finset String),
    session ∈ removed.foldl Finset.erase sessions ↔ session ∈ sessions ∧ session ∉ removed
  | [], _ => by simp
  | first :: rest, sessions => by
    rw [List.foldl_cons, mem_foldl_erase rest, Finset.mem_erase, List.mem_cons]
    tauto

/-- Events of the group are wanted at all. -/
def wants (filter : TopicFilter) : TopicGroup → Bool
  | .sessionLifecycle => filter.lifecycle
  | .sessionMessages => filter.messages

theorem admits_iff {filter : TopicFilter} {envelope : EventEnvelope Payload} :
    filter.admits envelope = true ↔ ∀ group, TopicGroup.forEvent envelope.name = some group →
      filter.wants group = true ∧ ∀ session, envelope.sessionId = some session →
        filter.sessions = ∅ ∨ session ∈ filter.sessions := by
  unfold admits
  cases TopicGroup.forEvent envelope.name with
  | none => simp
  | some group => cases group <;> cases envelope.sessionId <;> simp [wants]

/-- The allowlist is not emptied, or it restricts no group that is wanted. -/
def Spares (filter : TopicFilter) (sessions : List String) : Prop :=
  sessions = [] ∨ filter.sessions = ∅ ∨ (∃ session ∈ filter.sessions, session ∉ sessions)
    ∨ ∀ group, filter.wants group = false

/-- **`unsubscribe` narrows, unless it empties the allowlist**, which then means every session. -/
theorem unsubscribe_narrows_iff [Inhabited Payload] (filter : TopicFilter) (group : TopicGroup)
    (sessions : List String) :
    (∀ envelope : EventEnvelope Payload,
        (filter.unsubscribe group sessions).admits envelope = true → filter.admits envelope = true)
      ↔ filter.Spares sessions := by
  simp only [admits_iff, unsubscribe]
  by_cases hnone : sessions = []
  · refine iff_of_true (fun envelope h g hg => ?_) (.inl hnone)
    rw [if_pos (List.isEmpty_iff.mpr hnone)] at h
    obtain ⟨hwants, hsessions⟩ := h g hg
    cases group <;> cases g <;> first | exact ⟨hwants, hsessions⟩ | cases hwants
  rw [if_neg (mt List.isEmpty_iff.mp hnone)]
  constructor
  · intro h
    by_contra hspares
    simp only [Spares, not_or, not_exists, not_and, not_not, not_forall] at hspares
    obtain ⟨-, hfilter, hall, g, hg⟩ := hspares
    have hempty : sessions.foldl Finset.erase filter.sessions = ∅ := by
      refine Finset.eq_empty_of_forall_notMem fun session hmem => ?_
      obtain ⟨hin, hout⟩ := (mem_foldl_erase _ _).mp hmem
      exact hout (hall session hin)
    -- some session that the allowlist shuts out, in a group that is wanted
    obtain ⟨session, hshut⟩ := Infinite.exists_notMem_finset filter.sessions
    obtain ⟨name, hname⟩ : ∃ name, TopicGroup.forEvent name = some g := by
      cases g with
      | sessionLifecycle => exact ⟨"session.tool", rfl⟩
      | sessionMessages => exact ⟨"session.message", rfl⟩
    have hlet := h ⟨⟨name, default, 0, .broadcast, none, .node, some session⟩, ⟨1, by decide⟩⟩
      (fun g' hg' => ⟨?_, fun _ _ => .inl hempty⟩) g hname
    · exact (hlet.2 session rfl).elim hfilter hshut
    · cases hname.symm.trans hg'
      exact Bool.eq_true_of_not_eq_false hg
  · intro hspares envelope h g hg
    obtain ⟨hwants, hsessions⟩ := h g hg
    refine ⟨hwants, fun session hsession => ?_⟩
    rcases hspares with hnil | hempty | ⟨kept, hin, hout⟩ | hno
    · exact absurd hnil hnone
    · exact .inl hempty
    · rcases hsessions session hsession with hempty | hmem
      · exact absurd (hempty ▸ (mem_foldl_erase _ _).mpr ⟨hin, hout⟩) (Finset.notMem_empty kept)
      · exact .inr ((mem_foldl_erase _ _).mp hmem).1
    · cases (hno g).symm.trans hwants

/-- A connection that names one session and takes it back hears of every session. -/
theorem unsubscribe_widens :
    let before := ({} : TopicFilter).subscribe .sessionMessages ["a"]
    let envelope : EventEnvelope Unit :=
      ⟨⟨"session.message", (), 0, .broadcast, none, .node, some "b"⟩, ⟨1, by decide⟩⟩
    before.admits envelope = false ∧
      (before.unsubscribe .sessionMessages ["a"]).admits envelope = true := by
  decide +kernel
end TopicFilter

/-- What a subscription hands to its connection. -/
inductive Delivery (Payload : Type) where
  | event (envelope : EventEnvelope Payload)
  | lagged (firstMissed : EventSequence)
  | closed
  deriving DecidableEq, Repr

/-! ## What sender and receiver share -/

structure LagState where
  firstMissed : UInt64
  queuedBytes : UInt64
  deriving DecidableEq, Repr

/-- Why a closed subscription stopped delivering. -/
def LagState.terminalDelivery (lag : LagState) : Delivery Payload :=
  match EventSequence.new lag.firstMissed with
  | .ok firstMissed => .lagged firstMissed
  | .error _ => .closed

/-- The channel and the lag state of one subscription. -/
structure Link (χ : Type) where
  channel : χ
  lag : LagState

/-- `u64::saturating_add`. -/
def saturatingAdd (a b : UInt64) : UInt64 := if a + b < a then 0xFFFFFFFFFFFFFFFF else a + b

variable {χ : Type} [Channel χ (EventEnvelope Payload)]

/-- Only the first gap is recorded. -/
def Link.miss (link : Link χ) (ordinal : EventSequence) : Link χ :=
  { link with lag.firstMissed :=
      if link.lag.firstMissed = 0 then ordinal.get else link.lag.firstMissed }

/-- Enqueues the envelope, or records that it was missed. -/
def Link.offer (queueBytes : UInt64) (link : Link χ) (envelope : EventEnvelope Payload) :
    Link χ × Bool :=
  let queued := link.lag.queuedBytes
  -- an empty queue takes one envelope of any size
  if queued > 0 ∧ saturatingAdd queued envelope.encodedLen > queueBytes then
    (link.miss envelope.ordinal, true)
  else
    let (sent, channel) := Channel.trySend link.channel envelope
    if sent then
      ({ channel, lag := { link.lag with queuedBytes := queued + envelope.encodedLen } }, false)
    else (({ link with channel } : Link χ).miss envelope.ordinal, true)

/-! ## The bus -/

/-- Who a subscriber is; `filter` is the address of the filter its connection keeps. -/
structure Registration where
  id : ConnectionId
  deviceId : Option String
  role : Role
  scopes : List OperatorScope
  filter : Nat
  deriving DecidableEq, Repr

/-- The checks of the fan-out loop, in its order. -/
def Registration.admits (filters : Nat → TopicFilter) (r : Registration)
    (envelope : EventEnvelope Payload) : Bool :=
  if envelope.deviceId.any (fun device => r.deviceId != some device) then false
  else if envelope.audience.excludes r.id then false
  else if !envelope.visibility.admits r.role r.scopes then false
  else (filters r.filter).admits envelope

structure Subscriber extends Registration where
  /-- Address of the link it sends into. -/
  link : Nat
  deriving DecidableEq, Repr

structure EventBus (χ : Type) where
  ordinal : UInt64
  subscribers : List Subscriber
  queueCapacity : UInt64
  queueBytes : UInt64
  links : Nat → Link χ
  /-- How many links were made; the next address. -/
  created : Nat

/-- A handle, owned by one connection task. -/
structure EventSubscription where
  id : ConnectionId
  link : Nat
  deriving DecidableEq, Repr

/-- `char::is_control`. -/
def isControl (c : Char) : Bool := c.toNat < 32 || (127 ≤ c.toNat && c.toNat < 160)

def validDeviceId (deviceId : String) : Bool :=
  !deviceId.isEmpty && decide (deviceId.utf8ByteSize ≤ 256) && !deviceId.toList.any isControl

namespace EventBus

/-- `none` is the panic on a bound that is zero. -/
def new (queueCapacity queueBytes : UInt64) : Option (EventBus χ) :=
  if queueCapacity > 0 ∧ queueBytes > 0 then
    some ⟨0, [], queueCapacity, queueBytes, fun _ => ⟨Channel.channel 0, ⟨0, 0⟩⟩, 0⟩
  else none

/-- Removes subscribers, and with each its sender. -/
def retain (keep : Subscriber → Bool) (bus : EventBus χ) : EventBus χ :=
  { bus with
    subscribers := bus.subscribers.filter keep
    links := updateEach (·.link) (fun _ link => { link with channel := Channel.dropSender link.channel })
      bus.links (bus.subscribers.filter (!keep ·)) }

def subscribeBound (bus : EventBus χ) (id : ConnectionId) (role : Role)
    (scopes : List OperatorScope) (filter : Nat) (deviceId : Option String) :
    EventSubscription × EventBus χ :=
  let link := bus.created
  let bus := { bus with
    links := Function.update bus.links link ⟨Channel.channel bus.queueCapacity.toNat, ⟨0, 0⟩⟩
    created := bus.created + 1 }
  let bus := bus.retain (·.id != id)
  (⟨id, link⟩, { bus with
    subscribers := bus.subscribers ++ [⟨⟨id, deviceId, role, scopes, filter⟩, link⟩] })

def subscribe (bus : EventBus χ) (id : ConnectionId) (role : Role) (scopes : List OperatorScope)
    (filter : Nat) : EventSubscription × EventBus χ :=
  bus.subscribeBound id role scopes filter none

/-- An invalid identity receives no device-scoped events. -/
def subscribeForDevice (bus : EventBus χ) (id : ConnectionId) (role : Role)
    (scopes : List OperatorScope) (filter : Nat) (deviceId : String) :
    EventSubscription × EventBus χ :=
  bus.subscribeBound id role scopes filter (if validDeviceId deviceId then some deviceId else none)

def unsubscribe (bus : EventBus χ) (id : ConnectionId) : EventBus χ := bus.retain (·.id != id)

/-- Role and scopes of the first subscriber of the connection. -/
def reauthorizeFirst (id : ConnectionId) (role : Role) (scopes : List OperatorScope) :
    List Subscriber → List Subscriber
  | [] => []
  | s :: subscribers =>
    if s.id = id then { s with role, scopes } :: subscribers
    else s :: reauthorizeFirst id role scopes subscribers

def reauthorize (bus : EventBus χ) (id : ConnectionId) (role : Role)
    (scopes : List OperatorScope) : Bool × EventBus χ :=
  (bus.subscribers.any (·.id = id),
    { bus with subscribers := reauthorizeFirst id role scopes bus.subscribers })

/-- One subscriber of the fan-out loop. -/
def offerTo (queueBytes : UInt64) (filters : Nat → TopicFilter) (envelope : EventEnvelope Payload)
    (s : (Nat → Link χ) × List ConnectionId) (subscriber : Subscriber) :
    (Nat → Link χ) × List ConnectionId :=
  if subscriber.admits filters envelope then
    let (link, missed) := (s.1 subscriber.link).offer queueBytes envelope
    (Function.update s.1 subscriber.link link, if missed then s.2 ++ [subscriber.id] else s.2)
  else s

/-- The fan-out of one publication; a subscriber that missed it is removed. -/
def fanOut (bus : EventBus χ) (filters : Nat → TopicFilter) (envelope : EventEnvelope Payload) :
    EventBus χ :=
  let (links, lagged) := bus.subscribers.foldl (offerTo bus.queueBytes filters envelope) (bus.links, [])
  let bus := { bus with links }
  if lagged.isEmpty then bus else bus.retain (fun s => !lagged.contains s.id)

/-- `none` is the panic when the counter wraps to zero. -/
def publish (bus : EventBus χ) (filters : Nat → TopicFilter) (draft : EventDraft Payload) :
    Option EventSequence × EventBus χ :=
  let bus := { bus with ordinal := bus.ordinal + 1 }
  match EventSequence.new bus.ordinal with
  | .error _ => (none, bus)
  | .ok ordinal => (some ordinal, bus.fanOut filters { draft with ordinal })

end EventBus

namespace EventSubscription

/-- The next delivery; `none` if nothing is queued and the subscription is open. -/
def receive (subscription : EventSubscription) (bus : EventBus χ) :
    Option (Delivery Payload) × EventBus χ :=
  let link := bus.links subscription.link
  let (received, channel) := Channel.recv link.channel
  let put (lag : LagState) : EventBus χ :=
    { bus with links := Function.update bus.links subscription.link ⟨channel, lag⟩ }
  match received with
  | .value envelope => (some (.event envelope),
      put { link.lag with queuedBytes := link.lag.queuedBytes - envelope.encodedLen })
  | .empty => (none, put link.lag)
  | .disconnected => (some link.lag.terminalDelivery, put link.lag)

/-- `none` if the call is still waiting. -/
def recv (subscription : EventSubscription) (bus : EventBus χ) :
    Option (Delivery Payload) × EventBus χ := subscription.receive bus

def tryRecv (subscription : EventSubscription) (bus : EventBus χ) :
    Option (Delivery Payload) × EventBus χ := subscription.receive bus

/-- The destructor: it removes the registration of its connection, whichever that is by now. -/
def drop (subscription : EventSubscription) (bus : EventBus χ) : EventBus χ :=
  let bus := bus.unsubscribe subscription.id
  let link := bus.links subscription.link
  let link := { link with channel := Channel.dropReceiver link.channel }
  { bus with links := Function.update bus.links subscription.link link }

end EventSubscription

end GtaClaw.Gateway
