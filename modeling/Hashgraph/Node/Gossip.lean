import Hashgraph.Node.Basic

/-! Gossip between two nodes: one exchange, after which each takes what the other lists for it, in
encoded form and up to its own batch limit. -/

namespace Hashgraph

structure Tally where
  accepted : Nat := 0
  rejected : Nat := 0
  /-- How many of the rejected wait for a parent. -/
  missingParent : Nat := 0
deriving DecidableEq, Repr

namespace Tally

def count (tally : Tally) (status : IntakeStatus) : Tally :=
  if status.isInsertable then { tally with accepted := tally.accepted + 1 }
  else if status.isRetryable then
    { tally with rejected := tally.rejected + 1, missingParent := tally.missingParent + 1 }
  else { tally with rejected := tally.rejected + 1 }

end Tally

structure SyncOutcome where
  sent : Nat := 0
  received : Nat := 0
  accepted : Nat := 0
  rejected : Nat := 0
deriving DecidableEq, Repr

namespace Node

/-- Takes encoded events into a replica, up to the first that cannot be decoded. -/
def intake : List Bytes → Tally → Replica Event → EStateM.Result WireError (Replica Event) Tally
  | [], tally, replica => .ok tally replica
  | encoded :: rest, tally, replica =>
    match Event.decode encoded with
    | .error error => .error error replica
    | .ok event =>
      let (status, replica) := replica.addEvent event
      intake rest (tally.count status) replica

def receive (node : Node) (encoded : List Bytes) : EStateM.Result NodeError Node Tally :=
  match intake (encoded.take node.batchLimit) {} node.replica with
  | .error error replica => .error (.event (.undecodable error)) { node with replica }
  | .ok tally replica =>
    .ok tally
      { node with
        replica
        stats := { node.stats with
          eventsMissingParent := node.stats.eventsMissingParent + tally.missingParent } }

def recordSync (node : Node) (sent : Nat) (tally : Tally) : Node :=
  { node with
    stats := { node.stats with
      syncs := node.stats.syncs + 1
      eventsSent := node.stats.eventsSent + sent
      eventsAccepted := node.stats.eventsAccepted + tally.accepted
      eventsRejected := node.stats.eventsRejected + tally.rejected } }

/-- One exchange with another node. Both lists are drawn up before either node takes anything. -/
def syncWith (node peer : Node) : EStateM.Result NodeError (Node × Node) SyncOutcome :=
  match sendLists node.replica peer.replica node.name peer.name with
  | .error fault => .error (.fault fault) (node, peer)
  | .ok (toPeer, toNode) =>
    match peer.receive (toPeer.map Event.encode) with
    | .error error peer => .error error (node, peer)
    | .ok peerTally peer =>
      match node.receive (toNode.map Event.encode) with
      | .error error node => .error error (node, peer)
      | .ok tally node =>
        .ok ⟨toPeer.length, toNode.length, tally.accepted, tally.rejected⟩
          (node.recordSync toPeer.length tally, peer.recordSync toNode.length peerTally)

def syncWithSelf (node : Node) : EStateM.Result NodeError Node SyncOutcome :=
  match sendLists node.replica node.replica node.name node.name with
  | .error fault => .error (.fault fault) node
  | .ok (toPeer, toNode) =>
    match node.receive (toPeer.map Event.encode) with
    | .error error node => .error error node
    | .ok peerTally node =>
      match node.receive (toNode.map Event.encode) with
      | .error error node => .error error node
      | .ok tally node =>
        .ok ⟨toPeer.length, toNode.length, tally.accepted, tally.rejected⟩
          ((node.recordSync toPeer.length tally).recordSync toNode.length peerTally)

end Node
end Hashgraph
