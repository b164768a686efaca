import Hashgraph.Replica.Intake

/-! Expiration. A sweep never scans the graph: it walks the self-parent chain below every tip,
first keeping the tips themselves, and then drops the tips that are expired. -/

namespace Hashgraph

/-- A sweep under way: the graph so far, how many shadows are gone, and the tips found expired. -/
structure Sweep (ε : Type) where
  graph : ShadowGraph ε
  removed : Nat := 0
  expiredTips : List EventHash := []

namespace Sweep

variable {ε : Type} [DagEvent ε]

/-- Removes the expired shadows strictly below a tip and notes whether the tip is expired. A tip
that an earlier walk has removed counts as expired. -/
def trim (watermark : Generation) (sweep : Sweep ε) (tip : EventHash) : Sweep ε :=
  let (count, graph) := sweep.graph.removeStrictSelfAncestry tip (·.isExpired watermark)
  let expired := (graph.get? tip).all (·.isExpired watermark)
  { graph
    removed := sweep.removed + count
    expiredTips := if expired then sweep.expiredTips ++ [tip] else sweep.expiredTips }

def drop (watermark : Generation) (sweep : Sweep ε) (tip : EventHash) : Sweep ε :=
  let (count, graph) := sweep.graph.removeSelfAncestry tip (·.isExpired watermark)
  { sweep with graph, removed := sweep.removed + count }

end Sweep

namespace Replica

variable {ε : Type} [DagEvent ε]

def expire (replica : Replica ε) : Nat × Replica ε :=
  let trimmed := replica.tips.foldl (Sweep.trim replica.watermark) { graph := replica.graph }
  let dropped := trimmed.expiredTips.foldl (Sweep.drop replica.watermark) trimmed
  let tips := trimmed.expiredTips.foldl List.erase replica.tips
  (dropped.removed, { replica with graph := dropped.graph, tips })

def setWatermark (replica : Replica ε) (watermark : Generation) : Replica ε :=
  { replica with watermark }

/-- Moves the watermark and sweeps; nothing is done at the watermark where it stands. -/
def expireTo (replica : Replica ε) (watermark : Generation) : Nat × Replica ε :=
  if watermark = replica.watermark then (0, replica) else (replica.setWatermark watermark).expire

end Replica
end Hashgraph
