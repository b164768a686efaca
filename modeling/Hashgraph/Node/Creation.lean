import Hashgraph.Node.Basic
import Hashgraph.Random.Uniform

/-! Creating events. A node extends its own chain and may name the tip of another chain as the
other-parent. The generation stays above the watermark even when the node's own chain has fallen
behind it. -/

namespace Hashgraph.Node

/-- The least generation above the watermark and both parents. -/
def nextGeneration (node : Node) (otherParent : Option Descriptor) : Generation :=
  (node.lastEvent.toList ++ otherParent.toList).foldl
    (fun generation parent => max generation parent.generation.next)
    (max node.replica.watermark.next Generation.first)

def draft (node : Node) (otherParent : Option Descriptor) (transactions : List Bytes) : Draft :=
  { creator := node.creator
    selfParent := node.lastEvent
    otherParent := otherParent
    generation := some (node.nextGeneration otherParent)
    transactions := transactions }

/-- What became of one attempt to create an event, and the node that it leaves. An attempt is
overtaken when the watermark has passed the generation that was chosen. -/
inductive Attempt where
  | created (event : Event) (node : Node)
  | overtaken (node : Node)
  | failed (error : NodeError) (node : Node)

def attempt (node : Node) (now : Timestamp) (otherParent : Option Descriptor)
    (transactions : List Bytes) : Attempt :=
  match (node.draft otherParent transactions).build now with
  | .error error => .failed (.event error) node
  | .ok event =>
    match node.replica.addEvent event with
    | (.insertable, replica) =>
      .created event
        { node with
          replica
          lastEvent := some (DagEvent.descriptor event)
          stats := { node.stats with eventsCreated := node.stats.eventsCreated + 1 } }
    | (.expired, replica) => .overtaken { node with replica }
    | (status, replica) =>
      .failed (.notInsertable node.name event.hash status) { node with replica }

def creationAttempts : Nat := 3

def createWithin (otherParent : Option Descriptor) (transactions : List Bytes) :
    List Timestamp → Node → EStateM.Result NodeError Node Event
  | [], node => .error (.overtaken node.name) node
  | now :: later, node =>
    match node.attempt now otherParent transactions with
    | .created event node => .ok event node
    | .overtaken node => createWithin otherParent transactions later node
    | .failed error node => .error error node

/-- Creates an event and takes it into the node's own replica; `clock i` is the time of attempt
`i`. -/
def createEvent (node : Node) (clock : Nat → Timestamp) (otherParent : Option Descriptor)
    (transactions : List Bytes) : EStateM.Result NodeError Node Event :=
  createWithin otherParent transactions ((List.range creationAttempts).map clock) node

def otherTips (node : Node) : List EventHash :=
  node.replica.tips.filter fun hash => node.lastEvent.map Descriptor.hash ≠ some hash

/-- Picks an other-parent at random; nothing is drawn when there is no choice. -/
def chooseOtherParent (node : Node) (generator : Random.Generator) :
    Option Descriptor × Random.Generator :=
  match node.otherTips with
  | [] => (none, generator)
  | first :: rest =>
    let (index, generator) := generator.choose rest.length
    ((node.replica.event? ((first :: rest)[index])).map DagEvent.descriptor, generator)

end Hashgraph.Node
