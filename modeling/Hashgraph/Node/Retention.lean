import Hashgraph.Node.Basic

/-! Retention: a node keeps a number of generations below the highest that it holds. -/

namespace Hashgraph.Node

/-- Raises the watermark to `retained` generations below the highest held one and sweeps; the
watermark is never lowered. Answers how many shadows are gone. -/
def expireRetaining (node : Node) (retained : Generation) : Nat × Node :=
  match node.replica.maxGeneration? with
  | none => (0, node)
  | some highest =>
    let target := highest.minus retained
    if target ≤ node.replica.watermark then (0, node)
    else
      let (removed, replica) := node.replica.expireTo target
      (removed,
        { node with
          replica
          stats := { node.stats with shadowsExpired := node.stats.shadowsExpired + removed } })

end Hashgraph.Node
