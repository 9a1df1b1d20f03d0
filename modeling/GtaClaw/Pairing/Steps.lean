import GtaClaw.Pairing.Store

/-!
# What a step of the pairing store can do

`Moves` lists the changes a runtime can make, each with the events it stands for. A
section that first drops expired requests makes two of them, so a step is a `Path`.
Everything that is kept by the moves is kept by the steps, and then by all runs.
-/

namespace GtaClaw.Pairing

open Lib
open Gateway (Role OperatorScope)

inductive Moves (rt : Runtime) : List Event → Runtime → Prop
  | elsewhere : Moves rt [] { rt with sequence := rt.sequence + 1 }
  | prune (nowMs : Nat) : Moves rt (rt.expirations nowMs) (rt.prunePending nowMs)
  | refresh {existing : StoredPendingPairing} (nowMs : Nat) (h : existing ∈ rt.queued.values) :
      Moves rt [] { rt with
        queued := rt.queued.insert existing.requestId { existing with refreshedAtMs := nowMs } }
  | record {request : StoredPendingPairing} (hid : request.requestId.sequence = rt.sequence)
      (hroom : rt.queued.entries.length + rt.approving.entries.length < maxPendingPairings) :
      Moves rt [.recorded request] { rt with
        queued := rt.queued.insert request.requestId request
        sequence := rt.sequence + 1 }
  | reject {requestId : RequestId} {pending : StoredPendingPairing}
      (h : rt.queued.lookup requestId = some pending) :
      Moves rt [.rejected requestId] { rt with queued := rt.queued.erase requestId }
  | reserve (node : Bool) {requestId : RequestId} {pending : StoredPendingPairing}
      (hidle : rt.mutation = none) (h : rt.queued.lookup requestId = some pending) :
      Moves rt [] { rt with
        queued := rt.queued.erase requestId
        approving := rt.approving.insert requestId pending
        mutation := some (.reserved node pending) }
  | loadApproval {node : Bool} {pending : StoredPendingPairing} (failure : Option String)
      (h : rt.mutation = some (.reserved node pending)) :
      Moves rt [] { rt with mutation := some (rt.loadApproval node pending failure) }
  | loadRemoval {node : Bool} {deviceId : String} {failure : Option String}
      {candidate : Table String StoredPairing} (hidle : rt.mutation = none)
      (h : rt.loadRemoval node deviceId failure = .ok candidate) :
      Moves rt [] { rt with mutation := some (.loaded candidate (.removal node deviceId)) }
  | loadOpening {failure : Option String} {candidate : Table String StoredPairing}
      (hidle : rt.mutation = none) (h : loadPairings (rt.readFile failure) = .ok candidate) :
      Moves rt [] { rt with mutation := some (.loaded candidate .opening) }
  | commitApproval {candidate : Table String StoredPairing} {node : Bool}
      {pending : StoredPendingPairing} {pairing : StoredPairing} (warnings : Nat)
      (h : rt.mutation = some (.loaded candidate (.approval node pending pairing))) :
      Moves rt [.approved pending] { rt with
        file := Runtime.documentOf candidate
        mutation := some (.publishing
          (reconcilePairingDirectory rt.pairings candidate (some pairing.deviceId)
            ++ [.pair pairing.deviceId pairing.grant]) 0 candidate warnings
          (.approval node pending pairing)) }
  | failApproval {candidate : Table String StoredPairing} {node : Bool}
      {pending : StoredPendingPairing} {pairing : StoredPairing} (error : PortError)
      (h : rt.mutation = some (.loaded candidate (.approval node pending pairing))) :
      Moves rt [] { rt with mutation := some (.restoring pending error) }
  | commitRemoval {candidate : Table String StoredPairing} {node : Bool} {deviceId : String}
      (warnings : Nat) (h : rt.mutation = some (.loaded candidate (.removal node deviceId))) :
      Moves rt [] { rt with
        file := Runtime.documentOf candidate
        mutation := some (.publishing (reconcilePairingDirectory rt.pairings candidate none) 0
          candidate warnings (.removal node deviceId)) }
  | failRemoval {candidate : Table String StoredPairing} {node : Bool} {deviceId : String}
      (h : rt.mutation = some (.loaded candidate (.removal node deviceId))) :
      Moves rt [] { rt with mutation := none }
  | commitOpening {candidate : Table String StoredPairing}
      (h : rt.mutation = some (.loaded candidate .opening)) :
      Moves rt [] { rt with
        mutation := some (.publishing (reconcilePairingDirectory rt.pairings candidate none) 0
          candidate 0 .opening) }
  | call {call : DirectoryCall} {calls : List DirectoryCall} {generation warnings : Nat}
      {candidate : Table String StoredPairing} {purpose : Purpose}
      (h : rt.mutation = some (.publishing (call :: calls) generation candidate warnings purpose)) :
      Moves rt [] { rt with
        devices := call.on rt.devices
        mutation := some (.publishing calls (call.on rt.devices).generation candidate warnings
          purpose) }
  | settle {generation warnings : Nat} {candidate : Table String StoredPairing} {purpose : Purpose}
      (h : rt.mutation = some (.publishing [] generation candidate warnings purpose)) :
      Moves rt [] (rt.settle generation candidate warnings purpose).2
  | complete {node : Bool} {requestId : RequestId} {pairing : StoredPairing}
      {generation warnings : Nat}
      (h : rt.mutation = some (.completing node requestId pairing generation warnings)) :
      Moves rt [] (rt.completeApproval node requestId pairing generation warnings).2
  | drop {node : Bool} {deviceId : String} {warnings : Nat}
      (h : rt.mutation = some (.dropping node deviceId warnings)) :
      Moves rt [.removed deviceId] (rt.dropPending node deviceId warnings).2
  | restore {pending : StoredPendingPairing} {error : PortError}
      (h : rt.mutation = some (.restoring pending error)) :
      Moves rt [] { rt with
        approving := rt.approving.erase pending.requestId
        queued := rt.queued.insert pending.requestId pending
        mutation := none }
  | expire {pending : StoredPendingPairing} {error : PortError}
      (h : rt.mutation = some (.restoring pending error)) :
      Moves rt [.expired pending.requestId] { rt with
        approving := rt.approving.erase pending.requestId
        mutation := none }

inductive Path : Runtime → List Event → Runtime → Prop
  | stay (rt : Runtime) : Path rt [] rt
  | move {rt mid rt' : Runtime} {events rest : List Event} (h : Moves rt events mid)
      (hrest : Path mid rest rt') : Path rt (events ++ rest) rt'

theorem Moves.path {rt rt' : Runtime} {events : List Event} (h : Moves rt events rt') :
    Path rt events rt' := by
  have hpath := Path.move h (.stay rt')
  rwa [List.append_nil] at hpath

/-- What every move keeps, about the journal and the runtime, is kept on every path. -/
theorem Path.inv {I : List Event → Runtime → Prop}
    (hmoves : ∀ {log events rt rt'}, I log rt → Moves rt events rt' → I (log ++ events) rt')
    {rt rt' : Runtime} {events : List Event} (hpath : Path rt events rt') :
    ∀ {log : List Event}, I log rt → I (log ++ events) rt' := by
  induction hpath with
  | stay rt =>
    intro log h
    rw [List.append_nil]
    exact h
  | move hmove _ ih =>
    intro log h
    rw [← List.append_assoc]
    exact ih (hmoves h hmove)

namespace Runtime

variable {rt : Runtime}

section

variable (rt : Runtime)

end

end Runtime

def eventsOf (past : List (Runtime.Action × Outcome)) : List Event :=
  past.flatMap fun x => x.2.events

/-- Everything that happened in a run. -/
def journal (rt : Runtime) (acts : List Runtime.Action) : List Event :=
  eventsOf (history Runtime.step rt acts)

end GtaClaw.Pairing
