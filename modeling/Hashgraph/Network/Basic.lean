import Hashgraph.Node.Creation
import Hashgraph.Node.Gossip
import Hashgraph.Node.Retention

/-! A network of nodes, addressed by their places. -/

namespace Hashgraph

structure Network where
  nodes : Array Node := #[]

namespace Network

/-- An operation on a network, which may fail half-way. -/
abbrev Action (α : Type) := EStateM NodeError Network α

def size (network : Network) : Nat := network.nodes.size

def setNode (network : Network) (place : Nat) (node : Node) : Network :=
  ⟨network.nodes.setIfInBounds place node⟩

/-- Lets the node at a place create an event. Nothing happens where there is no node. -/
def create (place : Nat) (clock : Nat → Timestamp) (otherParent : Option Descriptor)
    (transactions : List Bytes) : Action (Option Event) := fun network =>
  match network.nodes[place]? with
  | none => .ok none network
  | some node =>
    match node.createEvent clock otherParent transactions with
    | .ok event node => .ok (some event) (network.setNode place node)
    | .error error node => .error error (network.setNode place node)

/-- Lets the node at a place sync with the node at another place, or with itself. -/
def sync (place peerPlace : Nat) : Action SyncOutcome := fun network =>
  match network.nodes[place]?, network.nodes[peerPlace]? with
  | some node, some peer =>
    if place = peerPlace then
      match node.syncWithSelf with
      | .ok outcome node => .ok outcome (network.setNode place node)
      | .error error node => .error error (network.setNode place node)
    else
      match node.syncWith peer with
      | .ok outcome (node, peer) =>
        .ok outcome ((network.setNode place node).setNode peerPlace peer)
      | .error error (node, peer) =>
        .error error ((network.setNode place node).setNode peerPlace peer)
  | _, _ => .ok {} network

def expireAll (network : Network) (retained : Generation) : Network :=
  ⟨network.nodes.map fun node => (node.expireRetaining retained).2⟩

def sortedTips (node : Node) : List EventHash :=
  node.replica.tips.mergeSort fun first second => (compare first second).isLE

def tipsConverged (network : Network) : Bool :=
  match network.nodes.toList with
  | [] => true
  | first :: rest => rest.all fun node => sortedTips node = sortedTips first

end Network
end Hashgraph
