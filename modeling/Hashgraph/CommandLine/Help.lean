import Hashgraph.CommandLine.Options
import Hashgraph.CommandLine.Terminal

/-! Help texts: what a command is for, how it is called, and a table for each kind of argument. -/

namespace Hashgraph.CommandLine

variable {σ α : Type}

def padRight (width : Nat) (text : String) : String :=
  String.ofList (text.toList.rightpad width ' ')

def padLeft (width : Nat) (text : String) : String :=
  String.ofList (text.toList.leftpad width ' ')

def Rule.usage (rule : Rule σ α) : String :=
  let letter :=
    match rule.letter with
    | none => "    "
    | some letter => String.ofList ['-', letter, ',', ' ']
  let value :=
    match rule.effect with
    | .value placeholder _ => " <" ++ placeholder ++ ">"
    | _ => ""
  letter ++ "--" ++ rule.name ++ value

/-- A text whose further lines start in the same column as its first. -/
def hangingIndent (column : Nat) (text : String) : String :=
  String.ofList (text.toList.flatMap fun c =>
    if c = '\n' then c :: List.replicate column ' ' else [c])

/-- A table with a title: terms, aligned, with an explanation each. -/
def helpTable (title : String) (lines : List (String × String)) : String :=
  let width := lines.foldl (fun width (term, _) => max width term.length) 0
  let line (term help : String) :=
    "  " ++ emphasized term ++ padRight (width + 2 - term.length) "" ++
      hangingIndent (width + 4) help ++ "\n"
  title ++ ":\n" ++ String.join (lines.map fun (term, help) => line term help)

def optionTable (rules : List (Rule σ α)) : String :=
  helpTable "Options" (rules.map fun rule => (rule.usage, rule.help))

def helpText (about usage : String) (tables : List String) : String :=
  plainText <| "\n".intercalate ([about ++ "\n", "Usage: " ++ usage ++ "\n"] ++ tables)

end Hashgraph.CommandLine
