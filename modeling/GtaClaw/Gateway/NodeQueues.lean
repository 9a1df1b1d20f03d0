import GtaClaw.Gateway.Reconnect

/-!
# The order of a node's queue

The store moves invocations from the pending list of a node to the awaiting list and back. Read
one after the other, the two lists are the invocations that were accepted and neither
acknowledged nor drained, in the order they came.
-/

namespace GtaClaw.Gateway.Reconnect

open Lib Table List

inductive QueueOp where
  | enqueue (invocation : PendingInvocation)
  | pull (max : Nat)
  | acknowledge (invocationId : String)
  | reclaim
  | drain

/-- A call is for one node. -/
abbrev QueueCall := String × QueueOp

/-- What a call leaves of the invocations that a node is owed. -/
def owed (nodeId : String) (kept : List PendingInvocation) (event : QueueCall × Reply) :
    List PendingInvocation :=
  if event.1.1 ≠ nodeId then kept
  else match event.1.2, event.2 with
    | .enqueue invocation, .enqueued (.ok _) => kept ++ [invocation]
    | .acknowledge id, .acknowledged true => kept.eraseP (·.id == id)
    | .drain, _ => []
    | _, _ => kept

namespace Queues

def call (limit : Nat) (nodes : Queues) (c : QueueCall) : Reply × Queues :=
  match c.2 with
  | .enqueue invocation => (nodes.pushPending limit c.1 invocation).map .enqueued id
  | .pull max => (nodes.takePending c.1 max).map .pulled id
  | .acknowledge invocationId => (nodes.acknowledgePending c.1 invocationId).map .acknowledged id
  | .reclaim => (nodes.requeueAwaiting c.1).map .reclaimed id
  | .drain => (nodes.takeAllPending c.1).map .drained id

/-- What is queued for a node, the invocations that it pulled first. -/
def content (nodes : Queues) (nodeId : String) : List PendingInvocation :=
  let queue := (nodes.lookup nodeId).getD .new
  queue.awaitingAck ++ queue.pending

structure Fits (limit : Nat) (kept : List PendingInvocation) : Prop where
  distinct : (kept.map (·.id)).Nodup
  bounded : kept.length ≤ limit

theorem Fits.sublist {limit : Nat} {kept rest : List PendingInvocation} (h : Fits limit kept)
    (hsub : rest <+ kept) : Fits limit rest :=
  ⟨h.distinct.sublist (hsub.map _), hsub.length_le.trans h.bounded⟩

variable {nodes : Queues} {nodeId : String}

theorem isEmpty_iff {queue : NodeQueue} :
    queue.isEmpty = true ↔ queue.awaitingAck ++ queue.pending = [] := by
  simp [NodeQueue.isEmpty, and_comm]

/-- The queue of one node is set, or forgotten if it is empty. -/
def Sets (nodes : Queues) (nodeId : String) (queue : NodeQueue) (next : Queues) : Prop :=
  ∀ other, next.lookup other =
    if other = nodeId then if queue.isEmpty then none else some queue else nodes.lookup other

theorem sets_keep (queue : NodeQueue) : nodes.Sets nodeId queue (nodes.keep nodeId queue) := by
  intro other
  unfold keep
  split_ifs with hempty hother hother
  · rw [hother, AList.lookup_erase]
  · exact AList.lookup_erase_ne hother
  · rw [hother, AList.lookup_insert]
  · exact AList.lookup_insert_ne hother

/-- **One call** sets the queue of its node to what the answer says. -/
theorem call_sets (limit : Nat) (nodes : Queues) (c : QueueCall) : ∃ queue : NodeQueue,
    nodes.Sets c.1 queue (nodes.call limit c).2 ∧
    queue.awaitingAck ++ queue.pending =
      owed c.1 (nodes.content c.1) (c, (nodes.call limit c).1) ∧
    (Fits limit (nodes.content c.1) → Fits limit (queue.awaitingAck ++ queue.pending)) := by
  obtain ⟨nodeId, op⟩ := c
  have hnone : nodes.lookup nodeId = none → nodes.Sets nodeId .new nodes := by
    intro hlookup other
    split_ifs with hother hempty
    · rw [hother, hlookup]
    · exact absurd rfl hempty
    · rfl
  cases op with
  | enqueue invocation =>
    simp only [call, pushPending, content]
    generalize (nodes.lookup nodeId).getD .new = queue
    split_ifs with hfull hheld
    · exact ⟨queue, sets_keep queue, by simp [owed], id⟩
    · exact ⟨queue, sets_keep queue, by simp [owed], id⟩
    · have hinsert : nodes.insert nodeId { queue with pending := queue.pending ++ [invocation] } =
          nodes.keep nodeId { queue with pending := queue.pending ++ [invocation] } := by
        simp [keep, NodeQueue.isEmpty]
      rw [hinsert]
      refine ⟨_, sets_keep _, by simp [owed], fun h => ?_⟩
      rw [← append_assoc]
      constructor
      · rw [map_append, nodup_append]
        refine ⟨h.distinct, nodup_singleton _, ?_⟩
        grind
      · simp only [NodeQueue.len, length_append, length_singleton] at hfull ⊢
        omega
  | pull max =>
    cases hlookup : nodes.lookup nodeId with simp only [call, takePending, hlookup, content]
    | none => exact ⟨.new, hnone hlookup, by simp [owed], id⟩
    | some queue => exact ⟨_, sets_keep _, by simp [owed], fun h => by simpa using h⟩
  | acknowledge id =>
    cases hlookup : nodes.lookup nodeId with simp only [call, acknowledgePending, hlookup, content]
    | none => exact ⟨.new, hnone hlookup, by simp [owed], fun h => h⟩
    | some queue =>
      split_ifs with hheld
      · obtain ⟨held, hmem, hid⟩ := any_eq_true.mp hheld
        refine ⟨_, sets_keep _, ?_, fun h => h.sublist ?_⟩
        · simp [owed, eraseP_append_left (p := (·.id == id)) hid _ hmem]
        · exact eraseP_sublist.append (Sublist.refl _)
      · exact ⟨queue, sets_keep queue, by simp [owed], fun h => h⟩
  | reclaim =>
    cases hlookup : nodes.lookup nodeId with simp only [call, requeueAwaiting, hlookup, content]
    | none => exact ⟨.new, hnone hlookup, by simp [owed], id⟩
    | some queue => exact ⟨_, sets_keep _, by simp [owed], fun h => by simpa using h⟩
  | drain =>
    cases hlookup : nodes.lookup nodeId with simp only [call, takeAllPending, hlookup, content]
    | none => exact ⟨.new, hnone hlookup, by simp [owed, NodeQueue.new], id⟩
    | some queue =>
      exact ⟨.new, sets_keep .new, by simp [owed, NodeQueue.new], fun h => h.sublist (nil_sublist _)⟩

/-- What the queue of a node is after the calls in `past`. -/
structure Ordered (limit : Nat) (nodeId : String) (past : List (QueueCall × Reply))
    (nodes : Queues) : Prop extends Fits limit (nodes.content nodeId) where
  owed : nodes.content nodeId = past.foldl (owed nodeId) []
  tidy : nodes.lookup nodeId ≠ none → nodes.content nodeId ≠ []

theorem Ordered.call {limit : Nat} {past : List (QueueCall × Reply)}
    (h : Ordered limit nodeId past nodes) (c : QueueCall) :
    Ordered limit nodeId (past ++ [(c, (nodes.call limit c).1)]) (nodes.call limit c).2 := by
  obtain ⟨queue, hsets, howed, hfits⟩ := call_sets limit nodes c
  have hlookup := hsets nodeId
  by_cases hnode : nodeId = c.1
  · subst hnode
    rw [if_pos rfl] at hlookup
    have hcontent : (nodes.call limit c).2.content c.1 = queue.awaitingAck ++ queue.pending := by
      rw [content, hlookup]
      split_ifs with hempty
      · exact (isEmpty_iff.mp hempty).symm
      · rfl
    refine ⟨hcontent ▸ hfits h.toFits, ?_, ?_⟩
    · rw [hcontent, howed, h.owed, foldl_append, foldl_cons, foldl_nil]
    · rw [hlookup, hcontent]
      split_ifs with hempty
      · exact fun hne => absurd rfl hne
      · exact fun _ => mt isEmpty_iff.mpr hempty
  · rw [if_neg hnode] at hlookup
    have hcontent : (nodes.call limit c).2.content nodeId = nodes.content nodeId := by
      rw [content, hlookup, content]
    refine ⟨hcontent ▸ h.toFits, ?_, ?_⟩
    · rw [hcontent, h.owed, foldl_append, foldl_cons, foldl_nil, Reconnect.owed, if_pos (Ne.symm hnode)]
    · rw [hlookup, hcontent]
      exact h.tidy

/-- **The queues of the nodes**, over every run of calls on an empty store. -/
theorem node_queues_in_order (limit : Nat) (calls : List QueueCall) :
    (∀ nodeId, Ordered limit nodeId (history (call limit) ∅ calls) (after (call limit) ∅ calls)) ∧
    ∀ (nodes : Queues) (c : QueueCall) (other : String), other ≠ c.1 →
      (nodes.call limit c).2.lookup other = nodes.lookup other := by
  refine ⟨fun nodeId => ?_, fun nodes c other hother => ?_⟩
  · have hstart : Ordered limit nodeId [] ∅ :=
      ⟨⟨by simp [content, NodeQueue.new], by simp [content, NodeQueue.new]⟩, rfl, fun h => absurd rfl h⟩
    exact history_inv (fun _ _ c h _ => h.call c) calls [] ∅ hstart (along_true calls ∅)
  · obtain ⟨queue, hsets, -⟩ := call_sets limit nodes c
    rw [hsets other, if_neg hother]

end Queues

end GtaClaw.Gateway.Reconnect
