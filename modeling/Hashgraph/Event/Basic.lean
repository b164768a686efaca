import Hashgraph.Event.Generation
import Hashgraph.Event.Identity

/-! Events of the gossip history. The graph reads four things of an event: its hash, its generation
and the descriptors of its two parents; `DagEvent` is that boundary. `Event` is what members
create and exchange: its contents together with their digest. -/

namespace Hashgraph

/-- A reference to an event: its hash with the generation that is claimed for it. -/
structure Descriptor where
  hash : EventHash
  generation : Generation
deriving DecidableEq

class DagEvent (ε : Type) where
  hash : ε → EventHash
  generation : ε → Generation
  selfParent : ε → Option Descriptor
  otherParent : ε → Option Descriptor

def DagEvent.descriptor {ε : Type} [DagEvent ε] (event : ε) : Descriptor :=
  ⟨DagEvent.hash event, DagEvent.generation event⟩

/-- An event reduced to what the graph reads of it; nothing ties the hash to the rest. -/
structure Outline where
  hash : EventHash
  generation : Generation
  selfParent : Option Descriptor := none
  otherParent : Option Descriptor := none
deriving DecidableEq

instance : DagEvent Outline where
  hash := Outline.hash
  generation := Outline.generation
  selfParent := Outline.selfParent
  otherParent := Outline.otherParent

abbrev Timestamp := Int64

/-- What an event says; its hash is the digest of this. -/
structure Content where
  creator : CreatorId
  generation : Generation
  selfParent : Option Descriptor
  otherParent : Option Descriptor
  transactions : List Bytes
  timestamp : Timestamp
deriving DecidableEq

structure Event extends Content where
  hash : EventHash
deriving DecidableEq

instance : DagEvent Event where
  hash := Event.hash
  generation event := event.generation
  selfParent event := event.selfParent
  otherParent event := event.otherParent

end Hashgraph
