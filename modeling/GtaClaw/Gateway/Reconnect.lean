import GtaClaw.Lib.Run
import GtaClaw.Lib.Table
import GtaClaw.Gateway.Events

/-!
# Reconnecting nodes

A node pulls invocations from the queue that the store keeps for its device and
acknowledges them one by one. What it pulled and did not acknowledge is put back when
the device connects anew, unless another connection of the device is live.

A handshake looks into the directory, puts the claims back and registers its own
connection in three steps, with awaits in between. Every call of the store and of the
directory is atomic. `claimant` is not part of the gateway: it remembers which
connection pulled an invocation last.
-/

namespace GtaClaw.Gateway.Reconnect

open Lib Table

/-! ## The store -/

structure PendingInvocation where
  id : String
  command : String
  payload : String
  enqueuedAtMs : Nat
  deriving DecidableEq, Repr

structure NodeQueue where
  pending : List PendingInvocation
  awaitingAck : List PendingInvocation
  deriving DecidableEq, Repr

namespace NodeQueue

def new : NodeQueue := ⟨[], []⟩

def len (queue : NodeQueue) : Nat := queue.pending.length + queue.awaitingAck.length

def isEmpty (queue : NodeQueue) : Bool := queue.pending.isEmpty && queue.awaitingAck.isEmpty

end NodeQueue

inductive StoreError where
  | capacityExceeded (collection : String) (limit : Nat)
  | conflict (id : String)
  deriving DecidableEq, Repr

abbrev Queues := Table String NodeQueue

namespace Queues

variable (nodes : Queues)

variable (nodeId : String)

/-- A queue that holds nothing is forgotten. -/
def keep (queue : NodeQueue) : Queues :=
  if queue.isEmpty then nodes.erase nodeId else nodes.insert nodeId queue

def pushPending (maxPendingPerNode : Nat) (nodeId : String)
    (invocation : PendingInvocation) : Except StoreError Nat × Queues :=
  let queue := (nodes.lookup nodeId).getD .new
  if queue.len ≥ maxPendingPerNode then
    (.error (.capacityExceeded "node.pending" maxPendingPerNode), nodes.keep nodeId queue)
  else if (queue.pending ++ queue.awaitingAck).any (·.id == invocation.id) then
    (.error (.conflict invocation.id), nodes.keep nodeId queue)
  else
    let queue := { queue with pending := queue.pending ++ [invocation] }
    (.ok queue.len, nodes.insert nodeId queue)

def takePending (max : Nat) : List PendingInvocation × Queues :=
  match nodes.lookup nodeId with
  | none => ([], nodes)
  | some queue =>
    let pulled := queue.pending.take max
    (pulled, nodes.keep nodeId ⟨queue.pending.drop max, queue.awaitingAck ++ pulled⟩)

def acknowledgePending (nodeId invocationId : String) : Bool × Queues :=
  match nodes.lookup nodeId with
  | none => (false, nodes)
  | some queue =>
    if queue.awaitingAck.any (·.id == invocationId) then
      (true, nodes.keep nodeId
        { queue with awaitingAck := queue.awaitingAck.eraseP (·.id == invocationId) })
    else (false, nodes.keep nodeId queue)

def takeAllPending : List PendingInvocation × Queues :=
  match nodes.lookup nodeId with
  | none => ([], nodes)
  | some queue => (queue.pending ++ queue.awaitingAck, nodes.erase nodeId)

/-- The claims that are not acknowledged go back to the head of the queue. -/
def requeueAwaiting : List PendingInvocation × Queues :=
  match nodes.lookup nodeId with
  | none => ([], nodes)
  | some queue => (queue.awaitingAck, nodes.keep nodeId ⟨queue.awaitingAck ++ queue.pending, []⟩)

end Queues

/-! ## Connections -/

structure Registered where
  serial : Nat
  role : Role
  deviceId : String
  deriving DecidableEq, Repr

/-- How far a handshake has come, once the hello was sent. -/
inductive Stage where
  | greeted
  /-- No other connection of the device was live. -/
  | unopposed
  | reclaimed
  deriving DecidableEq, Repr

structure Handshake where
  role : Role
  deviceId : String
  stage : Stage
  deriving DecidableEq, Repr

structure World where
  directory : Table Nat Registered
  nextSerial : Nat
  handshakes : Table Nat Handshake
  nextConnection : Nat
  nodes : Queues
  maxPendingPerNode : Nat
  /-- By device and invocation. -/
  claimant : String → String → Option Nat

/-- `ConnectionDirectory::node`. -/
def node (directory : Table Nat Registered) (deviceId : String) : Option Registered :=
  directory.values.find? fun entry => entry.role == .node && entry.deviceId == deviceId

/-- A registration removes the entry that it placed, and no other. -/
def removeRegistered (directory : Table Nat Registered) (id serial : Nat) : Table Nat Registered :=
  match directory.lookup id with
  | some held => if held.serial = serial then directory.erase id else directory
  | none => directory

inductive Action where
  /-- A handshake is accepted and its hello sent. -/
  | greet (role : Role) (deviceId : String)
  /-- The first half of `reclaim_stale_claims`. -/
  | check (connection : Nat)
  | reclaim (connection : Nat)
  | register (connection : Nat)
  | abandon (connection : Nat)
  /-- The registration of a connection is dropped. -/
  | disconnect (connection serial : Nat)
  | enqueue (nodeId : String) (invocation : PendingInvocation)
  | pull (connection : Nat) (limit : Nat)
  | acknowledge (connection : Nat) (invocationId : String)
  | drain (connection : Nat)

inductive Reply where
  | refused
  | done
  | enqueued (result : Except StoreError Nat)
  | pulled (invocations : List PendingInvocation)
  | acknowledged (found : Bool)
  | drained (invocations : List PendingInvocation)
  | reclaimed (invocations : List PendingInvocation)

namespace World

variable (w : World)

variable (connection : Nat)

variable (handshake : Handshake)

def setStage (stage : Stage) : World :=
  { w with handshakes := w.handshakes.insert connection { handshake with stage := stage } }

def greet (role : Role) (deviceId : String) : World :=
  { w with
    handshakes := w.handshakes.insert w.nextConnection ⟨role, deviceId, .greeted⟩
    nextConnection := w.nextConnection + 1 }

def check : World :=
  if handshake.role != .node || handshake.deviceId.isEmpty then
    w.setStage connection handshake .reclaimed
  else if (node w.directory handshake.deviceId).isSome then
    w.setStage connection handshake .reclaimed
  else w.setStage connection handshake .unopposed

def reclaim : Reply × World :=
  let (returned, nodes) := w.nodes.requeueAwaiting handshake.deviceId
  (.reclaimed returned, { w.setStage connection handshake .reclaimed with nodes := nodes })

def register : World :=
  { w with
    directory := w.directory.insert connection
      ⟨w.nextSerial + 1, handshake.role, handshake.deviceId⟩
    nextSerial := w.nextSerial + 1
    handshakes := w.handshakes.erase connection }

/-- The pulled invocations belong to the connection from now on. -/
def claim (claimant : String → String → Option Nat) (connection : Nat) (deviceId : String)
    (pulled : List PendingInvocation) : String → String → Option Nat :=
  fun device id =>
    if device = deviceId && pulled.any (·.id == id) then some connection else claimant device id

def pull (entry : Registered) (limit : Nat) : Reply × World :=
  if limit = 0 ∨ 256 < limit then (.refused, w)
  else
    let (pulled, nodes) := w.nodes.takePending entry.deviceId limit
    (.pulled pulled, { w with
      nodes := nodes
      claimant := claim w.claimant connection entry.deviceId pulled })

/-- A method that only a registered node may call. -/
def asNode (handler : Registered → Reply × World) : Reply × World :=
  match w.directory.lookup connection with
  | some entry => if entry.role = .node then handler entry else (.refused, w)
  | none => (.refused, w)

/-- A step of a handshake that stands at this point. -/
def atStage (stage : Stage) (handler : Handshake → Reply × World) : Reply × World :=
  match w.handshakes.lookup connection with
  | some handshake => if handshake.stage = stage then handler handshake else (.refused, w)
  | none => (.refused, w)

def step : Action → Reply × World
  | .greet role deviceId => (.done, w.greet role deviceId)
  | .check connection => w.atStage connection .greeted fun h => (.done, w.check connection h)
  | .reclaim connection => w.atStage connection .unopposed fun h => w.reclaim connection h
  | .register connection => w.atStage connection .reclaimed fun h => (.done, w.register connection h)
  | .abandon connection => (.done, { w with handshakes := w.handshakes.erase connection })
  | .disconnect connection serial =>
    (.done, { w with directory := removeRegistered w.directory connection serial })
  | .enqueue nodeId invocation =>
    let (result, nodes) := w.nodes.pushPending w.maxPendingPerNode nodeId invocation
    (.enqueued result, { w with nodes := nodes })
  | .pull connection limit => w.asNode connection fun entry => w.pull connection entry limit
  | .acknowledge connection invocationId => w.asNode connection fun entry =>
    let (found, nodes) := w.nodes.acknowledgePending entry.deviceId invocationId
    (.acknowledged found, { w with nodes := nodes })
  | .drain connection => w.asNode connection fun entry =>
    let (drained, nodes) := w.nodes.takeAllPending entry.deviceId
    (.drained drained, { w with nodes := nodes })

/-- A gateway that was just started, on a store that may hold claims of an earlier one. -/
def start (nodes : Queues) (maxPendingPerNode : Nat) : World :=
  { directory := ∅
    nextSerial := 0
    handshakes := ∅
    nextConnection := 0
    nodes := nodes
    maxPendingPerNode := maxPendingPerNode
    claimant := fun _ _ => none }

end World

/-! ## Claims of live connections -/

/-- What a reclaim put back. -/
def Reply.returned : Reply → List PendingInvocation
  | .reclaimed invocations => invocations
  | _ => []

/-- A reclaim puts back nothing that a registered connection has pulled. -/
def SparesLive (w : World) : Action → Prop
  | .reclaim connection => ∀ handshake ∈ w.handshakes.lookup connection,
      ∀ invocation ∈ (w.step (.reclaim connection)).1.returned,
        ∀ claimant ∈ w.claimant handshake.deviceId invocation.id,
          w.directory.lookup claimant = none
  | _ => True

/-- No node registers while another handshake of its device stands between its look into the
directory and its reclaim. -/
def NoOvertaking (w : World) : Action → Prop
  | .register connection => ∀ handshake ∈ w.handshakes.lookup connection, handshake.role = .node →
      ∀ waiting ∈ w.handshakes.values,
        waiting.deviceId = handshake.deviceId → waiting.stage ≠ .unopposed
  | _ => True

instance instDecidableSparesLive (w : World) (a : Action) : Decidable (SparesLive w a) := by
  cases a <;> dsimp only [SparesLive] <;> infer_instance

instance instDecidableNoOvertaking (w : World) (a : Action) : Decidable (NoOvertaking w a) := by
  cases a <;> dsimp only [NoOvertaking] <;> infer_instance

variable {directory : Table Nat Registered}

/-- **The invariant.** -/
structure Inv (w : World) : Prop where
  /-- A handshake that found nobody is still alone. -/
  unopposed : ∀ connection handshake, w.handshakes.lookup connection = some handshake →
    handshake.stage = .unopposed → ∀ other entry, w.directory.lookup other = some entry →
      entry.role = .node → entry.deviceId ≠ handshake.deviceId
  /-- Who has claims is or was registered as a node of the device. -/
  claims : ∀ deviceId id connection, w.claimant deviceId id = some connection →
    connection < w.nextConnection ∧ w.handshakes.lookup connection = none ∧
    ∀ entry, w.directory.lookup connection = some entry →
      entry.role = .node ∧ entry.deviceId = deviceId
  numbered : ∀ connection, w.nextConnection ≤ connection →
    w.handshakes.lookup connection = none ∧ w.directory.lookup connection = none
  apart : ∀ connection handshake, w.handshakes.lookup connection = some handshake →
    w.directory.lookup connection = none

namespace Inv

variable {w w' : World} {connection : Nat} {handshake : Handshake}

/-- What the store does is of no concern. -/
theorem frame (h : Inv w) (nodes : Queues) : Inv { w with nodes := nodes } :=
  { h with }

/-- A handshake is entered or goes on: it may call itself unopposed if no node of its device is
registered. -/
theorem enter (h : Inv w) {next : Nat} (hnext : w.nextConnection ≤ next) (hlt : connection < next)
    (hfree : w.directory.lookup connection = none)
    (hclaimant : ∀ device id, w.claimant device id ≠ some connection)
    (halone : handshake.stage = .unopposed → node w.directory handshake.deviceId = none) :
    Inv { w with
      handshakes := w.handshakes.insert connection handshake
      nextConnection := next } where
  unopposed := by
    intro other waiting hother hstage
    obtain ⟨-, rfl⟩ | ⟨-, hold⟩ := lookup_insert_eq_some hother
    · intro id entry hlookup hrole heq
      have hnot := List.find?_eq_none.mp (halone hstage) entry (mem_values.mpr ⟨id, hlookup⟩)
      simp [hrole, heq] at hnot
    · exact h.unopposed other waiting hold hstage
  claims := by
    intro device id claimant hclaim
    obtain ⟨hlt, hnone, hentry⟩ := h.claims device id claimant hclaim
    have hne : claimant ≠ connection := fun heq => hclaimant device id (heq ▸ hclaim)
    exact ⟨hlt.trans_le hnext, (AList.lookup_insert_ne hne).trans hnone, hentry⟩
  numbered := by
    intro other hle
    obtain ⟨hnone, hentry⟩ := h.numbered other (hnext.trans hle)
    exact ⟨(AList.lookup_insert_ne (hlt.trans_le hle).ne').trans hnone, hentry⟩
  apart := by
    intro other waiting hother
    obtain ⟨rfl, -⟩ | ⟨-, hold⟩ := lookup_insert_eq_some hother
    · exact hfree
    · exact h.apart other waiting hold

theorem greet (h : Inv w) (role : Role) (deviceId : String) : Inv (w.greet role deviceId) := by
  refine h.enter (Nat.le_succ _) (by omega) (h.numbered _ le_rfl).2
    (fun device id hclaim => ?_) (by simp)
  exact lt_irrefl _ (h.claims device id _ hclaim).1

section

variable (h : Inv w) (hlookup : w.handshakes.lookup connection = some handshake)
include h hlookup

theorem setStage
    (stage : Stage) (halone : stage = .unopposed → node w.directory handshake.deviceId = none) :
    Inv (w.setStage connection handshake stage) := by
  refine h.enter le_rfl ?_ (h.apart _ _ hlookup) (fun device id hclaim => ?_) halone
  · by_contra hle
    cases (h.numbered connection (by omega)).1.symm.trans hlookup
  · cases (h.claims device id _ hclaim).2.1.symm.trans hlookup

theorem check : Inv (w.check connection handshake) := by
  have hdone : Inv (w.setStage connection handshake .reclaimed) :=
    h.setStage hlookup _ (by simp)
  unfold World.check
  split
  · exact hdone
  split_ifs with halone
  · exact hdone
  · exact h.setStage hlookup _ fun _ => Option.not_isSome_iff_eq_none.mp halone

theorem reclaim : Inv (w.reclaim connection handshake).2 :=
  (h.setStage hlookup .reclaimed (by simp)).frame _

end

theorem shrink (h : Inv w) {handshakes : Table Nat Handshake}
    (hleft : w.handshakes.Shrinks handshakes) (hshrinks : w.directory.Shrinks directory) :
    Inv { w with directory := directory, handshakes := handshakes } := by
  refine ⟨?_, ?_, fun other hle => ?_, fun other waiting hother => ?_⟩
  · intro other waiting hother hstage peer entry hpeer
    exact h.unopposed other waiting (hleft other waiting hother) hstage peer entry
      (hshrinks peer entry hpeer)
  · intro device id claimant hclaim
    obtain ⟨hlt, hnone, hentry⟩ := h.claims device id claimant hclaim
    exact ⟨hlt, hleft.lookup_eq_none hnone,
      fun entry hlookup => hentry entry (hshrinks claimant entry hlookup)⟩
  · obtain ⟨hnone, hentry⟩ := h.numbered other hle
    exact ⟨hleft.lookup_eq_none hnone, hshrinks.lookup_eq_none hentry⟩
  · exact hshrinks.lookup_eq_none (h.apart other waiting (hleft other waiting hother))

/-- Nobody of the device is being undercut. -/
theorem register (h : Inv w) (hlookup : w.handshakes.lookup connection = some handshake)
    (halone : handshake.role = .node → ∀ waiting ∈ w.handshakes.values,
      waiting.deviceId = handshake.deviceId → waiting.stage ≠ .unopposed) :
    Inv (w.register connection handshake) where
  unopposed := by
    intro other waiting hother hstage peer entry hpeer hrole
    have hold := (lookup_erase_eq_some hother).2
    obtain ⟨-, rfl⟩ | ⟨-, hentry⟩ := lookup_insert_eq_some hpeer
    · intro hdevice
      exact halone hrole waiting (mem_values.mpr ⟨other, hold⟩) hdevice.symm hstage
    · exact h.unopposed other waiting hold hstage peer entry hentry hrole
  claims := by
    intro device id claimant hclaim
    obtain ⟨hlt, hnone, hentry⟩ := h.claims device id claimant hclaim
    refine ⟨hlt, (shrinks_erase _ _).lookup_eq_none hnone, fun entry hnew => ?_⟩
    rw [World.register, AList.lookup_insert_ne (ne_of_lookup hlookup hnone)] at hnew
    exact hentry entry hnew
  numbered := by
    intro other hle
    obtain ⟨hnone, hentry⟩ := h.numbered other hle
    have hne : other ≠ connection := ne_of_lookup hlookup hnone
    exact ⟨(shrinks_erase _ _).lookup_eq_none hnone, (AList.lookup_insert_ne hne).trans hentry⟩
  apart := by
    intro other waiting hother
    obtain ⟨hne, hold⟩ := lookup_erase_eq_some hother
    exact (AList.lookup_insert_ne hne).trans (h.apart other waiting hold)

theorem pull (h : Inv w) {entry : Registered}
    (hentry : w.directory.lookup connection = some entry) (hrole : entry.role = .node)
    (limit : Nat) : Inv (w.pull connection entry limit).2 := by
  unfold World.pull
  split
  · exact h
  refine { h with claims := ?_ }
  intro device id claimant hclaim
  simp only [World.claim] at hclaim
  split_ifs at hclaim with hnew
  · cases hclaim
    have hdevice : device = entry.deviceId := by simpa using (Bool.and_eq_true_iff.mp hnew).1
    refine ⟨?_, ?_, fun entry' hentry' => ?_⟩
    · by_contra hle
      rw [(h.numbered connection (not_lt.mp hle)).2] at hentry
      cases hentry
    · cases hlookup : w.handshakes.lookup connection with
      | none => rfl
      | some handshake =>
        rw [h.apart connection handshake hlookup] at hentry
        cases hentry
    · rw [hentry] at hentry'
      cases hentry'
      exact ⟨hrole, hdevice.symm⟩
  · exact h.claims device id claimant hclaim

end Inv

section Guards

variable {w : World} {connection : Nat} {P : Reply × World → Prop}

theorem atStage_cases {stage : Stage} {handler : Handshake → Reply × World}
    (hrefused : P (.refused, w)) (h : ∀ handshake, w.handshakes.lookup connection = some handshake →
      handshake.stage = stage → P (handler handshake)) :
    P (w.atStage connection stage handler) := by
  unfold World.atStage
  split
  · rename_i handshake hlookup
    split_ifs with hstage
    · exact h handshake hlookup hstage
    · exact hrefused
  · exact hrefused

theorem asNode_cases {handler : Registered → Reply × World} (hrefused : P (.refused, w))
    (h : ∀ entry, w.directory.lookup connection = some entry → entry.role = .node →
      P (handler entry)) : P (w.asNode connection handler) := by
  unfold World.asNode
  split
  · rename_i entry hlookup
    split_ifs with hrole
    · exact h entry hlookup hrole
    · exact hrefused
  · exact hrefused

end Guards

theorem inv_step (w : World) (action : Action) (h : Inv w) (hok : NoOvertaking w action) :
    Inv (w.step action).2 := by
  cases action with
  | greet role deviceId => exact h.greet role deviceId
  | check connection =>
    exact atStage_cases (P := fun result => Inv result.2) h fun _ hlookup _ => h.check hlookup
  | reclaim connection =>
    exact atStage_cases (P := fun result => Inv result.2) h fun _ hlookup _ => h.reclaim hlookup
  | register connection =>
    exact atStage_cases (P := fun result => Inv result.2) h fun _ hlookup _ =>
      h.register hlookup (hok _ hlookup)
  | abandon connection => exact h.shrink (shrinks_erase _ _) (.refl _)
  | disconnect connection serial =>
    refine h.shrink (.refl _) ?_
    unfold removeRegistered
    repeat' split
    · exact shrinks_erase _ _
    all_goals exact Table.Shrinks.refl _
  | enqueue nodeId invocation => exact h.frame _
  | pull connection limit =>
    exact asNode_cases (P := fun result => Inv result.2) h fun _ hentry hrole =>
      h.pull hentry hrole limit
  | acknowledge connection invocationId | drain connection =>
    exact asNode_cases (P := fun result => Inv result.2) h fun _ _ _ => h.frame _

/-- Who reclaims is unopposed, so no claimant of the device is registered. -/
theorem Inv.sparesLive {w : World} (h : Inv w) (action : Action) : SparesLive w action := by
  cases action with
  | reclaim connection =>
    intro handshake hlookup invocation hreturned claimant hclaim
    have hstage : handshake.stage = .unopposed := by
      by_contra hstage
      simp only [World.step, World.atStage, Option.mem_def.mp hlookup, if_neg hstage] at hreturned
      cases hreturned
    obtain ⟨-, -, hnode⟩ := h.claims _ _ _ hclaim
    cases hentry : w.directory.lookup claimant with
    | none => rfl
    | some entry =>
      obtain ⟨hrole, hdevice⟩ := hnode entry hentry
      exact absurd hdevice (h.unopposed _ _ hlookup hstage _ _ hentry hrole)
  | _ => trivial

/-- **A reconnecting node takes nothing from a live connection**, in the runs where no node
registers between another handshake's look into the directory and its reclaim. -/
theorem reclaim_spares_live (nodes : Queues) (maxPendingPerNode : Nat) (actions : List Action)
    (h : Along World.step NoOvertaking (World.start nodes maxPendingPerNode) actions) :
    Along World.step SparesLive (World.start nodes maxPendingPerNode) actions :=
  Along.of_inv inv_step (fun _ action hinv _ => hinv.sparesLive action) actions _
    ⟨(fun _ _ h => by cases h), (fun _ _ _ h => by cases h), fun _ _ => ⟨rfl, rfl⟩, fun _ _ _ => rfl⟩ h

abbrev job : PendingInvocation := ⟨"job", "camera.snap", "", 10⟩

/-- A second connection of a live node leaves its claims alone; once both are gone the third
takes them over. -/
abbrev comingBack : List Action :=
  [.greet .node "phone", .check 0, .reclaim 0, .register 0, .enqueue "phone" job, .pull 0 16,
    .greet .node "phone", .check 1, .register 1, .disconnect 0 1, .disconnect 1 2,
    .greet .node "phone", .check 2, .reclaim 2, .register 2]

theorem reclaim_spares_live_comingBack :
    Along World.step NoOvertaking (World.start ∅ 4) comingBack ∧
    ((after World.step (World.start ∅ 4) comingBack).nodes.lookup "phone") = some ⟨[job], []⟩ ∧
    Along World.step SparesLive (World.start ∅ 4) comingBack :=
  ⟨by decide +kernel, by decide +kernel, reclaim_spares_live ∅ 4 comingBack (by decide +kernel)⟩

/-- Two handshakes of one device find the directory empty. The first registers and pulls the job,
then the second puts it back. -/
abbrev overtaking : List Action :=
  [.greet .node "phone", .greet .node "phone", .check 0, .check 1, .reclaim 0, .register 0,
    .enqueue "phone" job, .pull 0 16]

theorem reclaim_undercuts_live :
    let w := after World.step (World.start ∅ 4) overtaking
    w.claimant "phone" "job" = some 0 ∧
    w.directory.lookup 0 = some ⟨1, .node, "phone"⟩ ∧
    ¬ SparesLive w (.reclaim 1) ∧
    (w.step (.reclaim 1)).2.nodes.lookup "phone" = some ⟨[job], []⟩ := by
  decide +kernel

end GtaClaw.Gateway.Reconnect
