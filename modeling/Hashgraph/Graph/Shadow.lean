import Hashgraph.Event.Basic

/-! Shadows: an event in the graph together with the hashes of its recorded children. Parents are
known by descriptor only and looked up through the graph. -/

namespace Hashgraph

structure Shadow (ε : Type) where
  event : ε
  selfChildren : EventHashSet := ∅
  otherChildren : EventHashSet := ∅

namespace Shadow

variable {ε : Type}

section Event

variable [DagEvent ε]

def hash (shadow : Shadow ε) : EventHash := DagEvent.hash shadow.event

def generation (shadow : Shadow ε) : Generation := DagEvent.generation shadow.event

def selfParent (shadow : Shadow ε) : Option Descriptor := DagEvent.selfParent shadow.event

def otherParent (shadow : Shadow ε) : Option Descriptor := DagEvent.otherParent shadow.event

/-- Self-parent and other-parent, as far as there are any. -/
def parents (shadow : Shadow ε) : List Descriptor :=
  shadow.selfParent.toList ++ shadow.otherParent.toList

/-- A watermark expires every generation up to and including its own. -/
def isExpired (shadow : Shadow ε) (watermark : Generation) : Bool :=
  shadow.generation ≤ watermark

end Event

/-- A shadow without recorded self-children is a tip of its creator's chain. -/
def isTip (shadow : Shadow ε) : Bool := shadow.selfChildren.isEmpty

/-- Self-children, then other-children. -/
def children (shadow : Shadow ε) : List EventHash :=
  shadow.selfChildren.toList ++ shadow.otherChildren.toList

def addSelfChild (child : EventHash) (shadow : Shadow ε) : Shadow ε :=
  { shadow with selfChildren := shadow.selfChildren.insert child }

def addOtherChild (child : EventHash) (shadow : Shadow ε) : Shadow ε :=
  { shadow with otherChildren := shadow.otherChildren.insert child }

def removeSelfChild (child : EventHash) (shadow : Shadow ε) : Shadow ε :=
  { shadow with selfChildren := shadow.selfChildren.erase child }

def removeOtherChild (child : EventHash) (shadow : Shadow ε) : Shadow ε :=
  { shadow with otherChildren := shadow.otherChildren.erase child }

end Shadow
end Hashgraph
