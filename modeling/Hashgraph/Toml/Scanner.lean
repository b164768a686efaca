/-! Scanners read the front of a text and hand on the rest. -/

namespace Hashgraph.Toml

/-- Reads the front of a text, or refuses it. -/
abbrev Scanner (α : Type) := StateT (List Char) Option α

namespace Scanner

variable {α β : Type}

def satisfy (accepts : Char → Bool) : Scanner Char := fun input =>
  match input with
  | [] => none
  | c :: rest => if accepts c then some (c, rest) else none

def char (expected : Char) : Scanner Unit := discard (satisfy (· = expected))

def word (expected : String) : Scanner Unit := expected.toList.forM char

def run (accepts : Char → Bool) : Scanner (List Char) := fun input => some (input.span accepts)

/-- What a scanner reads; where it refuses, nothing is read. -/
def option (scanner : Scanner α) : Scanner (Option α) := fun input =>
  match scanner input with
  | none => some (none, input)
  | some (item, rest) => some (some item, rest)

def manyWithin (scanner : Scanner α) (bound : List Char) : Scanner (List α) :=
  match bound with
  | [] => return []
  | _ :: bound => do
    match ← option scanner with
    | none => return []
    | some item => return item :: (← manyWithin scanner bound)

/-- Reads as many items as there are. Every item takes a character at least, so the text itself
bounds their number. -/
def many (scanner : Scanner α) : Scanner (List α) := fun input => manyWithin scanner input input

def separated (item : Scanner α) (separator : Scanner β) : Scanner (List α) := do
  match ← option item with
  | none => return []
  | some first => return first :: (← many (separator *> item))

def exactly (scanner : Scanner α) : Nat → Scanner (List α)
  | 0 => return []
  | count + 1 => do
    let item ← scanner
    return item :: (← exactly scanner count)

def runAll (scanner : Scanner α) (input : List Char) : Option α :=
  match scanner input with
  | some (item, []) => some item
  | _ => none

end Scanner

open Scanner

def isBlank (c : Char) : Bool := c = ' ' || c = '\t'

/-- Any character but the line ends and the other controls; the tab is no control here. -/
def isPlain (c : Char) : Bool := c = '\t' || (' ' ≤ c && c ≠ '\x7f')

def blanks : Scanner Unit := discard (run isBlank)

/-- A line ends in a line feed, which a carriage return may precede. -/
def newline : Scanner Unit := char '\n' <|> word "\r\n"

def comment : Scanner Unit := char '#' *> discard (run isPlain)

/-- Blanks, line ends and comments that end with their lines. -/
def gap : Scanner Unit :=
  discard (many (discard (satisfy isBlank) <|> (discard (option comment) *> newline)))

end Hashgraph.Toml
