import Hashgraph.Network.Simulation
import Hashgraph.Text.Json

/-! The report on a simulation: what every node holds and did, and whether the tips agree. -/

namespace Hashgraph

open Text (Json)

structure NodeReport where
  name : String
  shadowEvents : Nat
  tips : Nat
  watermark : Generation
  maxGeneration : Option Generation
  stats : NodeStats

structure Report where
  nodes : List NodeReport
  converged : Bool
  settlePasses : Nat

def Node.report (node : Node) : NodeReport :=
  { name := node.name
    shadowEvents := node.replica.graph.size
    tips := node.replica.tips.length
    watermark := node.replica.watermark
    maxGeneration := node.replica.maxGeneration?
    stats := node.stats }

def Network.report (network : Network) (settlePasses : Nat) : Report :=
  { nodes := network.nodes.toList.map Node.report
    converged := network.tipsConverged
    settlePasses }

/-- Runs the simulation of a configuration to its end. -/
def Simulation.report (simulation : Simulation) (now : Timestamp) : Except NodeError Report :=
  match Simulation.run now simulation with
  | .ok passes simulation => .ok (simulation.network.report passes)
  | .error error _ => .error error

def NodeStats.toJson (stats : NodeStats) : Json :=
  .object
    [("events_created", .int stats.eventsCreated), ("syncs", .int stats.syncs),
      ("events_sent", .int stats.eventsSent), ("events_accepted", .int stats.eventsAccepted),
      ("events_rejected", .int stats.eventsRejected),
      ("events_missing_parent", .int stats.eventsMissingParent),
      ("shadows_expired", .int stats.shadowsExpired)]

def NodeReport.toJson (report : NodeReport) : Json :=
  .object
    [("name", .string report.name), ("shadow_events", .int report.shadowEvents),
      ("tips", .int report.tips), ("expired_generation", .int report.watermark.toInt),
      ("max_generation",
        match report.maxGeneration with
        | none => .null
        | some generation => .int generation.toInt),
      ("stats", report.stats.toJson)]

def Report.toJson (report : Report) (elapsedMs : Nat) : Json :=
  .object
    [("nodes", .array (report.nodes.map NodeReport.toJson)),
      ("converged", .bool report.converged), ("settle_passes", .int report.settlePasses),
      ("elapsed_ms", .int elapsedMs)]

end Hashgraph
