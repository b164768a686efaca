import Hashgraph.Network.Basic

/-! Settling a network after the gossip: every node is brought to the highest watermark, and then
all pairs sync until the tips agree, in a bounded number of passes. -/

namespace Hashgraph.Network

def highestWatermark? (network : Network) : Option Generation :=
  (network.nodes.toList.map fun node => node.replica.watermark).max?

/-- Raises a node's watermark and sweeps, outside of the node's own counters. -/
def raiseWatermark (watermark : Generation) (node : Node) : Node :=
  if node.replica.watermark < watermark then
    { node with replica := (node.replica.expireTo watermark).2 }
  else node

def alignWatermarks (network : Network) : Network :=
  match network.highestWatermark? with
  | none => network
  | some watermark => ⟨network.nodes.map (raiseWatermark watermark)⟩

def pairs (count : Nat) : List (Nat × Nat) :=
  (List.range count).flatMap fun first =>
    ((List.range count).filter fun second => first < second).map fun second => (first, second)

def syncPairs : List (Nat × Nat) → Action Unit
  | [], network => .ok () network
  | (place, peer) :: rest, network =>
    match sync place peer network with
    | .ok _ network => syncPairs rest network
    | .error error network => .error error network

/-- Syncs all pairs until the tips agree, at most `passes` times; answers how often. -/
def converge : Nat → Action Nat
  | 0, network => .ok 0 network
  | passes + 1, network =>
    if network.tipsConverged then .ok 0 network
    else
      match syncPairs (pairs network.size) network with
      | .error error network => .error error network
      | .ok () network =>
        match converge passes network with
        | .ok used network => .ok (used + 1) network
        | .error error network => .error error network

def maxSettlePasses : Nat := 3

/-- Aligns the watermarks and converges; answers the number of passes. -/
def settle : Action Nat := fun network => converge maxSettlePasses network.alignWatermarks

end Hashgraph.Network
