import Hashgraph.Config.Basic
import Hashgraph.Toml.Writing

/-! A configuration as a TOML document with one section for each group of settings. -/

namespace Hashgraph

open Toml

def NodeSettings.toToml (node : NodeSettings) : Option String := do
  let nodes ← writeUnsigned node.nodes
  return writeSection "node" [("name", writeString node.name), ("nodes", nodes)]

def GossipSettings.toToml (gossip : GossipSettings) : Option String := do
  let interval ← writeUnsigned gossip.intervalMs
  let rounds ← writeUnsigned gossip.rounds
  let events ← writeUnsigned gossip.eventsPerRound
  let batch ← writeUnsigned gossip.maxSendBatch
  let seed ← writeUnsigned gossip.seed
  return writeSection "gossip"
    [("interval_ms", interval), ("rounds", rounds), ("events_per_round", events),
      ("max_send_batch", batch), ("seed", seed)]

def ExpirationSettings.toToml (expiration : ExpirationSettings) : Option String := do
  let interval ← writeUnsigned expiration.intervalMs
  return writeSection "expiration"
    [("enabled", writeBoolean expiration.enabled), ("interval_ms", interval),
      ("retained_generations", writeSigned expiration.retainedGenerations)]

def LoggingSettings.toToml (logging : LoggingSettings) : String :=
  writeSection "logging"
    [("level", writeString logging.level), ("format", writeString logging.format)]

def Config.unwritable : String := "Failed to serialize config"

/-- The document of a configuration. There is none if a number does not fit into the integers of
the format. -/
def Config.toToml (config : Config) : Option String := do
  let node ← config.node.toToml
  let gossip ← config.gossip.toToml
  let expiration ← config.expiration.toToml
  return "\n".intercalate [node, gossip, expiration, config.logging.toToml]

end Hashgraph
