import Hashgraph.Bytes.LittleEndian
import Hashgraph.Config.Basic
import Hashgraph.Toml.Document

/-! Reading configurations. A section is a table of named settings or an array of settings in
their order; settings that are left out have their defaults, and unknown ones are ignored. -/

namespace Hashgraph

open Toml (Value)

/-- The settings of one section. -/
inductive Section where
  | named (settings : List (String × Value))
  | listed (settings : List Value)

namespace Section

/-- A section that is missing, or a moment in its place, leaves every setting out. -/
def ofValue? : Option Value → Option Section
  | none | some (.moment _) => some (.named [])
  | some (.table fields) => some (.named fields)
  | some (.array items) => some (.listed items)
  | some _ => none

def setting? (settings : Section) (place : Nat) (name : String) : Option Value :=
  match settings with
  | .named fields => fields.lookup name
  | .listed items => items[place]?

def read {α : Type} (settings : Section) (place : Nat) (name : String) (preset : α)
    (decode : Value → Option α) : Option α :=
  match settings.setting? place name with
  | none => some preset
  | some value => decode value

end Section

def Toml.Value.text? : Value → Option String
  | .string text => some text
  | _ => none

def Toml.Value.boolean? : Value → Option Bool
  | .boolean value => some value
  | _ => none

def Toml.Value.unsigned? : Value → Option UInt64
  | .integer value =>
    if 0 ≤ value ∧ value.toNat < UInt64.size then some (UInt64.ofNat value.toNat) else none
  | _ => none

def Toml.Value.signed? : Value → Option Int64
  | .integer value =>
    if Int64.minValue.toInt ≤ value ∧ value ≤ Int64.maxValue.toInt then some (Int64.ofInt value)
    else none
  | _ => none

def NodeSettings.ofSection? (settings : Section) : Option NodeSettings := do
  let preset : NodeSettings := {}
  return {
    name := ← settings.read 0 "name" preset.name Value.text?
    nodes := ← settings.read 1 "nodes" preset.nodes Value.unsigned? }

def GossipSettings.ofSection? (settings : Section) : Option GossipSettings := do
  let preset : GossipSettings := {}
  return {
    intervalMs := ← settings.read 0 "interval_ms" preset.intervalMs Value.unsigned?
    rounds := ← settings.read 1 "rounds" preset.rounds Value.unsigned?
    eventsPerRound := ← settings.read 2 "events_per_round" preset.eventsPerRound Value.unsigned?
    maxSendBatch := ← settings.read 3 "max_send_batch" preset.maxSendBatch Value.unsigned?
    seed := ← settings.read 4 "seed" preset.seed Value.unsigned? }

def ExpirationSettings.ofSection? (settings : Section) : Option ExpirationSettings := do
  let preset : ExpirationSettings := {}
  return {
    enabled := ← settings.read 0 "enabled" preset.enabled Value.boolean?
    intervalMs := ← settings.read 1 "interval_ms" preset.intervalMs Value.unsigned?
    retainedGenerations :=
      ← settings.read 2 "retained_generations" preset.retainedGenerations Value.signed? }

def LoggingSettings.ofSection? (settings : Section) : Option LoggingSettings := do
  let preset : LoggingSettings := {}
  return {
    level := ← settings.read 0 "level" preset.level Value.text?
    format := ← settings.read 1 "format" preset.format Value.text? }

namespace Config

def ofFields? (fields : List (String × Value)) : Option Config := do
  let group (name : String) : Option Section := Section.ofValue? (fields.lookup name)
  return {
    node := ← NodeSettings.ofSection? (← group "node")
    gossip := ← GossipSettings.ofSection? (← group "gossip")
    expiration := ← ExpirationSettings.ofSection? (← group "expiration")
    logging := ← LoggingSettings.ofSection? (← group "logging") }

def ofToml? (document : String) : Option Config := do
  ofFields? (← Toml.parse document.toList)

inductive LoadError where
  | unreadable
  /-- The text is no document, or a setting has the wrong type. -/
  | malformed
  | invalid (error : ConfigError)
deriving DecidableEq, Repr

def LoadError.message (path : String) : LoadError → String
  | .unreadable => "Failed to read config file " ++ path
  | .malformed => "Failed to parse config file " ++ path
  | .invalid error => error.message

/-- Reads and checks the configuration in a file, whose bytes may be missing. -/
def load (content : Option Bytes) : Except LoadError Config :=
  match content.bind fun bytes => String.fromUTF8? ⟨bytes.toArray⟩ with
  | none => .error .unreadable
  | some document =>
    match ofToml? document with
    | none => .error .malformed
    | some config =>
      match config.validate with
      | .error error => .error (.invalid error)
      | .ok () => .ok config

end Config
end Hashgraph
