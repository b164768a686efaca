/-! Options of a command line. A table of rules says which options there are, what each does to
the settings, and how the help describes it. -/

namespace Hashgraph.CommandLine

/-- What an option does to the settings; `none` refuses it. An option may also put an end to the
reading with an answer of its own. -/
inductive Effect (σ α : Type) where
  | flag (set : σ → Option σ)
  | value (placeholder : String) (set : String → σ → Option σ)
  | answer (answer : α)

structure Rule (σ α : Type) where
  letter : Option Char
  name : String
  help : String
  effect : Effect σ α

inductive Stop (α : Type) where
  | answered (answer : α)
  | misused

variable {σ α : Type}

def orMisused (settings : Option σ) : Except (Stop α) σ :=
  match settings with
  | some settings => .ok settings
  | none => .error .misused

/-- What has to be done with the next argument: an option may still wait for its value. -/
abbrev Pending (σ : Type) := Option (String → σ → Option σ)

/-- Reads letters that share a dash. The first that takes a value takes the rest of them, less an
equals sign, or waits for the next argument. -/
def readLetters (rules : List (Rule σ α)) :
    List Char → σ → Except (Stop α) (σ × Pending σ)
  | [], settings => .ok (settings, none)
  | letter :: rest, settings =>
    match (rules.find? fun rule => rule.letter = some letter).map Rule.effect with
    | none => .error .misused
    | some (.answer answer) => .error (.answered answer)
    | some (.flag set) => do
      let settings ← orMisused (set settings)
      readLetters rules rest settings
    | some (.value _ set) =>
      match rest with
      | [] => .ok (settings, some set)
      | '=' :: text => do return (← orMisused (set (String.ofList text) settings), none)
      | text => do return (← orMisused (set (String.ofList text) settings), none)

def readLong (rules : List (Rule σ α)) (option : List Char) (settings : σ) :
    Except (Stop α) (σ × Pending σ) :=
  let (name, rest) := option.span (· ≠ '=')
  match (rules.find? fun rule => rule.name.toList = name).map Rule.effect, rest with
  | some (.answer answer), [] => .error (.answered answer)
  | some (.flag set), [] => do return (← orMisused (set settings), none)
  | some (.value _ set), [] => .ok (settings, some set)
  | some (.value _ set), _ :: text => do
    return (← orMisused (set (String.ofList text) settings), none)
  | _, _ => .error .misused

def isOption (argument : String) : Bool :=
  match argument.toList with
  | '-' :: _ :: _ => true
  | _ => false

/-- Reads one option; other arguments, and a double dash that ends the options, are left alone. -/
def readOption (rules : List (Rule σ α)) (argument : String) (settings : σ) :
    Option (Except (Stop α) (σ × Pending σ)) :=
  match argument.toList with
  | ['-', '-'] => none
  | '-' :: '-' :: option => some (readLong rules option settings)
  | '-' :: letter :: letters => some (readLetters rules (letter :: letters) settings)
  | _ => none

/-- Reads options up to the first argument that is none; answers the settings and what is left. -/
def readOptions (rules : List (Rule σ α)) :
    List String → σ → Except (Stop α) (σ × List String)
  | [], settings => .ok (settings, [])
  | argument :: rest, settings =>
    match readOption rules argument settings with
    | none => .ok (settings, argument :: rest)
    | some (.error stop) => .error stop
    | some (.ok (settings, none)) => readOptions rules rest settings
    | some (.ok (settings, some set)) =>
      match rest with
      | [] => .error .misused
      | value :: rest =>
        if isOption value then .error .misused
        else
          match set value settings with
          | none => .error .misused
          | some settings => readOptions rules rest settings

def readOnlyOptions (rules : List (Rule σ α)) (arguments : List String) (settings : σ) :
    Except (Stop α) σ :=
  match readOptions rules arguments settings with
  | .ok (settings, []) | .ok (settings, ["--"]) => .ok settings
  | .ok _ => .error .misused
  | .error stop => .error stop

/-- Sets what is not set yet: an option may be given once. -/
def setOnce (current new : Option α) : Option (Option α) :=
  match current, new with
  | none, some value => some (some value)
  | _, _ => none

def raiseOnce (flag : Bool) : Option Bool := if flag then none else some true

def unsigned? (text : String) : Option UInt64 :=
  let digits : List Char :=
    match text.toList with
    | '+' :: digits => digits
    | digits => digits
  let number : Nat := digits.foldl (fun number digit => number * 10 + (digit.toNat - 48)) 0
  if digits ≠ [] ∧ digits.all Char.isDigit ∧ number < UInt64.size then some (UInt64.ofNat number)
  else none

def path? (text : String) : Option String := if text.isEmpty then none else some text

end Hashgraph.CommandLine
