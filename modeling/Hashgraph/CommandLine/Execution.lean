import Hashgraph.CommandLine.Request
import Hashgraph.Config.Reading
import Hashgraph.Config.Writing
import Hashgraph.Files.Path
import Hashgraph.Network.Report

/-! Carrying out requests. Files and the clock are reached through an interface, so that a run is
a function of what they answer. -/

namespace Hashgraph.CommandLine

/-- The surroundings of a run. A path that something stands at can be without a content to read,
for example the path of a directory. Two clocks are at hand: one tells the time since the beginning
of 1970, the other only how much time passes. -/
structure Surroundings (m : Type → Type) where
  holds : String → m Bool
  read : String → m (Option Bytes)
  write : String → String → m (Except Files.Fault Unit)
  now : m Timestamp
  milliseconds : m Nat

structure Outcome where
  output : String := ""
  error : Option String := none

def versionText : String := "skein 0.1.0\n"

def fail (message : String) : Outcome := { error := some message }

def SimulateOptions.override (options : SimulateOptions) (config : Config) : Config :=
  { config with
    node := { config.node with nodes := options.nodes.getD config.node.nodes }
    gossip := { config.gossip with
      rounds := options.rounds.getD config.gossip.rounds
      seed := options.seed.getD config.gossip.seed }
    expiration := { config.expiration with
      enabled := config.expiration.enabled && !options.noExpire } }

def reportRow (name : String) (columns : List String) : String :=
  let widths := [8, 6, 10, 9, 9, 9]
  " ".intercalate (padRight 12 name :: List.zipWith padLeft widths columns) ++ "\n"

def nodeRow (node : NodeReport) : String :=
  let watermark :=
    if node.watermark = Generation.nothingExpired then "-" else toString node.watermark.toInt
  reportRow node.name
    [toString node.shadowEvents, toString node.tips, watermark, toString node.stats.eventsCreated,
      toString node.stats.eventsAccepted, toString node.stats.eventsRejected]

def reportTable (report : Report) (elapsedMs : Nat) : String :=
  reportRow "node" ["shadows", "tips", "expired", "created", "accepted", "rejected"] ++
    String.join (report.nodes.map nodeRow) ++ "\n" ++
    "converged: " ++ (if report.converged then "true" else "false") ++ " (settle passes: " ++
    toString report.settlePasses ++ ", " ++ toString elapsedMs ++ "ms)\n"

def reportText (json : Bool) (report : Report) (elapsedMs : Nat) : String :=
  if json then (report.toJson elapsedMs).pretty 0 ++ "\n" else reportTable report elapsedMs

variable {m : Type → Type} [Monad m]

/-- The configuration at a path, which is the default one where nothing stands. -/
def configAt (surroundings : Surroundings m) (path : String) :
    m (Except Config.LoadError Config) := do
  if ← surroundings.holds path then return Config.load (← surroundings.read path)
  else return .ok {}

def simulate (surroundings : Surroundings m) (options : SimulateOptions) : m Outcome := do
  let path := options.configPath.getD defaultConfigPath
  match ← configAt surroundings path with
  | .error error => return fail (error.message path)
  | .ok config =>
    match Simulation.ofConfig (options.override config) with
    | .error error => return fail error.message
    | .ok simulation =>
      let now ← surroundings.now
      let start ← surroundings.milliseconds
      match simulation.report now with
      | .error error => return fail error.message
      | .ok report =>
        let stop ← surroundings.milliseconds
        return {
          output := reportText options.json report (stop - start)
          error := if report.converged then none else some "nodes did not converge" }

/-- Prints the default configuration, or writes it to a file that does not exist or may be
overwritten. -/
def writeConfig (surroundings : Surroundings m) (options : ConfigOptions) : m Outcome := do
  match ({} : Config).toToml, options.outputPath with
  | none, _ => return fail Config.unwritable
  | some document, none => return { output := document }
  | some document, some path =>
    if (← surroundings.holds path) && !options.force then
      return fail (Text.quoted path ++ " already exists (use --force to overwrite)")
    match ← surroundings.write path document with
    | .error fault => return fail fault.message
    | .ok () => return { output := "Wrote default configuration to " ++ Text.quoted path ++ "\n" }

def Request.execute (surroundings : Surroundings m) (seed : Option String) : Request → m Outcome
  | .help topic => return { output := topic.text seed }
  | .version | .run .version => return { output := versionText }
  | .run (.simulate options) => simulate surroundings options
  | .run (.config options) => writeConfig surroundings options

end Hashgraph.CommandLine
