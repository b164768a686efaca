import Hashgraph.Event.Identity
import Hashgraph.Exchange.Phase

/-! What can go wrong in a graph and in an exchange: either a caller breaks the contract of an
operation, or an invariant is found broken. That an event is refused at intake is no fault. -/

namespace Hashgraph

/-- What a session was used for twice. -/
inductive Reuse where
  | localTips
  | peerTips
deriving DecidableEq, Repr

def Reuse.message : Reuse → String
  | .localTips => "local tips already sent"
  | .peerTips => "peer tips already applied"

inductive Fault where
  | duplicateShadow (hash : EventHash)
  | tipCount (sent received : Nat)
  | phaseOrder (expected found : Phase)
  | tipsNotSent
  | sessionReused (reuse : Reuse)
  | danglingParent (child parent : EventHash)
  | tipMismatch (hash : EventHash)
deriving DecidableEq

namespace Fault

def message : Fault → String
  | .duplicateShadow hash => "Shadow event already exists: " ++ hash.short
  | .tipCount sent received =>
    "Tip boolean count mismatch: sent " ++ toString sent ++ " tips, received " ++
      toString received ++ " booleans"
  | .phaseOrder expected found =>
    "Sync phase out of order: expected " ++ expected.name ++ ", session is at " ++ found.name
  | .tipsNotSent => "Local tip hashes were never sent on this session"
  | .sessionReused reuse => "Sync session reused: " ++ reuse.message
  | .danglingParent child parent =>
    "Shadow " ++ child.short ++ " references missing unexpired parent " ++ parent.short
  | .tipMismatch hash => "Tip set inconsistent at shadow " ++ hash.short

/-- Whether the caller broke a contract; the other faults are broken invariants. -/
def isContractViolation : Fault → Bool
  | .danglingParent .. | .tipMismatch _ => false
  | .duplicateShadow _ | .tipCount .. | .phaseOrder .. | .tipsNotSent | .sessionReused _ => true

end Fault
end Hashgraph
