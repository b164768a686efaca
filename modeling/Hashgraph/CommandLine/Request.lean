import Hashgraph.CommandLine.Help

/-! What a command line asks for: a command with its options, or a text to show. -/

namespace Hashgraph.CommandLine

structure SimulateOptions where
  configPath : Option String := none
  nodes : Option UInt64 := none
  rounds : Option UInt64 := none
  seed : Option UInt64 := none
  noExpire : Bool := false
  json : Bool := false
  verbose : Bool := false
deriving DecidableEq, Repr

structure ConfigOptions where
  outputPath : Option String := none
  force : Bool := false
  verbose : Bool := false
deriving DecidableEq, Repr

structure CommonOptions where
  verbose : Bool := false
deriving DecidableEq, Repr

inductive Command where
  | simulate (options : SimulateOptions)
  | config (options : ConfigOptions)
  | version
deriving DecidableEq, Repr

inductive Topic where
  | program
  | simulate
  | config
  | version
  | help
deriving DecidableEq, Repr

inductive Request where
  | run (command : Command)
  | help (topic : Topic)
  | version
deriving DecidableEq, Repr

def defaultConfigPath : String := "skein.toml"

def seedVariable : String := "SKEIN_SEED"

def helpRule {σ : Type} (topic : Topic) : Rule σ Request :=
  ⟨some 'h', "help", "Print help", .answer (.help topic)⟩

/-- Logging goes to no channel that a command answers on, so the flag is read, and refused when it
is given twice, and changes nothing else. -/
def verboseRule {σ : Type} (set : σ → Option σ) : Rule σ Request :=
  ⟨some 'v', "verbose", "Verbose logging", .flag set⟩

def CommonOptions.setVerbose (options : CommonOptions) : Option CommonOptions :=
  (raiseOnce options.verbose).map fun verbose => { options with verbose }

/-- The rules in the order of the help. `seed` is what the environment holds for the seed. -/
def simulateRules (seed : Option String) : List (Rule SimulateOptions Request) :=
  [⟨some 'c', "config", "Configuration file path [default: " ++ defaultConfigPath ++ "]",
      .value "CONFIG" fun text options => do
        return { options with configPath := ← setOnce options.configPath (path? text) }⟩,
    ⟨some 'n', "nodes", "Override the number of nodes",
      .value "NODES" fun text options => do
        return { options with nodes := ← setOnce options.nodes (unsigned? text) }⟩,
    ⟨some 'r', "rounds", "Override the number of gossip rounds",
      .value "ROUNDS" fun text options => do
        return { options with rounds := ← setOnce options.rounds (unsigned? text) }⟩,
    ⟨none, "seed",
      "Override the random seed [env: " ++ seedVariable ++ "=" ++ seed.getD "" ++ "]",
      .value "SEED" fun text options => do
        return { options with seed := ← setOnce options.seed (unsigned? text) }⟩,
    verboseRule fun options => do
      return { options with verbose := ← raiseOnce options.verbose },
    ⟨none, "no-expire", "Disable periodic expiration",
      .flag fun options => do
        return { options with noExpire := ← raiseOnce options.noExpire }⟩,
    ⟨none, "json", "Print the report as JSON",
      .flag fun options => do return { options with json := ← raiseOnce options.json }⟩,
    helpRule .simulate]

def configRules : List (Rule ConfigOptions Request) :=
  [⟨some 'o', "output", "Write to this file instead of stdout",
      .value "OUTPUT" fun text options => do
        return { options with outputPath := ← setOnce options.outputPath (path? text) }⟩,
    ⟨none, "force", "Overwrite an existing file",
      .flag fun options => do return { options with force := ← raiseOnce options.force }⟩,
    verboseRule fun options => do
      return { options with verbose := ← raiseOnce options.verbose },
    helpRule .config]

def versionRules : List (Rule CommonOptions Request) :=
  [verboseRule CommonOptions.setVerbose, helpRule .version]

def programRules : List (Rule CommonOptions Request) :=
  [verboseRule CommonOptions.setVerbose, helpRule .program,
    ⟨some 'V', "version", "Print version", .answer .version⟩]

def Topic.ofName? : String → Option Topic
  | "simulate" => some .simulate
  | "config" => some .config
  | "version" => some .version
  | "help" => some .help
  | _ => none

def Topic.about : Topic → String
  | .program => "Skein - hashgraph shadow graph and gossip sync simulator"
  | .simulate => "Run a multi-node gossip simulation"
  | .config => "Print or write the default configuration"
  | .version => "Version information"
  | .help => "Print this message or the help of the given subcommand(s)"

def commandLines : List (String × String) :=
  [("simulate", Topic.about .simulate), ("config", Topic.about .config),
    ("version", Topic.about .version), ("help", Topic.about .help)]

def Topic.text (seed : Option String) (topic : Topic) : String :=
  match topic with
  | .program =>
    helpText topic.about "skein [OPTIONS] <COMMAND>"
      [helpTable "Commands" commandLines, optionTable programRules]
  | .simulate => helpText topic.about "skein simulate [OPTIONS]" [optionTable (simulateRules seed)]
  | .config => helpText topic.about "skein config [OPTIONS]" [optionTable configRules]
  | .version => helpText topic.about "skein version [OPTIONS]" [optionTable versionRules]
  | .help =>
    helpText topic.about "skein help [COMMAND]..."
      [helpTable "Arguments" [("[COMMAND]...", "Print help for the subcommand(s)")]]

namespace Request

/-- The seed from the environment stands in where no option gives one. -/
def withSeed (seed : Option String) (options : SimulateOptions) :
    Except (Stop Request) SimulateOptions :=
  match options.seed, seed with
  | none, some text => do return { options with seed := some (← orMisused (unsigned? text)) }
  | _, _ => .ok options

def readCommand (name : String) (arguments : List String) (seed : Option String) :
    Except (Stop Request) Request := do
  match name with
  | "simulate" =>
    let options ← readOnlyOptions (simulateRules seed) arguments {}
    return .run (.simulate (← withSeed seed options))
  | "config" => return .run (.config (← readOnlyOptions configRules arguments {}))
  | "version" =>
    let _ ← readOnlyOptions versionRules arguments {}
    return .run .version
  | "help" =>
    match arguments with
    | [] => return .help .program
    | [name] => return .help (← orMisused (Topic.ofName? name))
    | _ => throw .misused
  | _ => throw .misused

/-- Reads a command line, given what the environment holds for the seed. There is no request in a
line that breaks the rules. -/
def read? (arguments : List String) (seed : Option String) : Option Request :=
  let result : Except (Stop Request) Request := do
    match ← readOptions programRules arguments {} with
    | (_, []) => throw .misused
    | (_, name :: rest) => readCommand name rest seed
  match result with
  | .ok request | .error (.answered request) => some request
  | .error .misused => none

end Request
end Hashgraph.CommandLine
