import Hashgraph.Replica.Intake

/-! The consistency check of a replica: every tip is held, a held shadow is a tip exactly when no
recorded self-child of it is held, and every parent is held or expired. -/

namespace Hashgraph.Replica

variable {ε : Type} [DagEvent ε]

def checkTip (replica : Replica ε) (tip : EventHash) : Except Fault Unit :=
  if tip ∈ replica.graph then .ok () else .error (.tipMismatch tip)

def hasHeldSelfChild (replica : Replica ε) (shadow : Shadow ε) : Bool :=
  shadow.selfChildren.toList.any replica.graph.contains

def checkParent (replica : Replica ε) (child : Shadow ε) (parent : Descriptor) :
    Except Fault Unit :=
  if replica.isMissing parent then .error (.danglingParent child.hash parent.hash) else .ok ()

def checkShadow (replica : Replica ε) (shadow : Shadow ε) : Except Fault Unit :=
  if replica.hasHeldSelfChild shadow = decide (shadow.hash ∈ replica.tips) then
    .error (.tipMismatch shadow.hash)
  else shadow.parents.forM (replica.checkParent shadow)

/-- Reports the first violation: tips in their order, then shadows in the order of their hashes. -/
def checkConsistency (replica : Replica ε) : Except Fault Unit := do
  replica.tips.forM replica.checkTip
  replica.graph.toList.forM replica.checkShadow

end Hashgraph.Replica
