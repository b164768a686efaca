import Hashgraph.Text.Quoted

/-! The configuration of a simulated network: its defaults and the rules that a configuration has
to meet. -/

namespace Hashgraph

structure NodeSettings where
  name : String := "skein"
  nodes : UInt64 := 4
deriving DecidableEq, Repr

structure GossipSettings where
  intervalMs : UInt64 := 50
  rounds : UInt64 := 40
  eventsPerRound : UInt64 := 1
  maxSendBatch : UInt64 := 10000
  seed : UInt64 := 0
deriving DecidableEq, Repr

structure ExpirationSettings where
  enabled : Bool := true
  intervalMs : UInt64 := 200
  retainedGenerations : Int64 := 64
deriving DecidableEq, Repr

structure LoggingSettings where
  level : String := "info"
  format : String := "text"
deriving DecidableEq, Repr

structure Config where
  node : NodeSettings := {}
  gossip : GossipSettings := {}
  expiration : ExpirationSettings := {}
  logging : LoggingSettings := {}
deriving DecidableEq, Repr

/-- Which rule a configuration breaks. -/
inductive ConfigError where
  | noNodes
  | noGossipInterval
  | noSendBatch
  | noExpirationInterval
  | negativeRetention
  | unknownFormat (format : String)
deriving DecidableEq, Repr

def ConfigError.message : ConfigError → String
  | .noNodes => "node.nodes must be at least 1"
  | .noGossipInterval => "gossip.interval_ms must be non-zero"
  | .noSendBatch => "gossip.max_send_batch must be non-zero"
  | .noExpirationInterval =>
    "expiration.interval_ms must be non-zero when expiration is enabled"
  | .negativeRetention => "expiration.retained_generations must not be negative"
  | .unknownFormat format =>
    "logging.format must be \"text\" or \"json\", got " ++ Text.quoted format

/-- A span of milliseconds in seconds, to nine places. -/
def secondsText (milliseconds : UInt64) : String :=
  let places := (toString (milliseconds.toNat % 1000)).toList.leftpad 3 '0'
  toString (milliseconds.toNat / 1000) ++ "." ++ String.ofList (places.rightpad 9 '0')

def LoggingSettings.isJson (logging : LoggingSettings) : Bool := logging.format = "json"

/-- The first rule that a configuration breaks. -/
def Config.validate (config : Config) : Except ConfigError Unit :=
  if config.node.nodes = 0 then .error .noNodes
  else if config.gossip.intervalMs = 0 then .error .noGossipInterval
  else if config.gossip.maxSendBatch = 0 then .error .noSendBatch
  else if config.expiration.enabled ∧ config.expiration.intervalMs = 0 then
    .error .noExpirationInterval
  else if config.expiration.retainedGenerations < 0 then .error .negativeRetention
  else if config.logging.format = "text" ∨ config.logging.format = "json" then .ok ()
  else .error (.unknownFormat config.logging.format)

end Hashgraph
