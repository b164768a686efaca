import Hashgraph.Toml.Quotation
import Hashgraph.Toml.Table

/-! Whole documents: lines with key-value pairs, each under the last header before it. -/

namespace Hashgraph.Toml

open Scanner

def nestingLimit : Nat := 80

def isBareChar (c : Char) : Bool := c.isAlphanum || c = '_' || c = '-'

def bareKey : Scanner String := do
  let name ← run isBareChar
  if name.isEmpty then failure else return String.ofList name

/-- One part of a key, with the blanks around it. -/
def keyPart : Scanner String := do
  blanks
  let name ← basicLine <|> literalLine <|> bareKey
  blanks
  return name

def key : Scanner Key := do
  let first ← keyPart
  let parts := first :: (← many (char '.' *> keyPart))
  if nestingLimit ≤ parts.length then failure
  return ⟨parts.dropLast, parts.getLastD first⟩

/-- A key and a value, which blanks may precede. -/
def pair (value : Scanner Value) : Scanner (Key × Value) := do
  let key ← key
  char '='
  blanks
  return (key, ← value)

def boolean : Scanner Bool :=
  (do word "true"; return true) <|> (do word "false"; return false)

def array (value : Scanner Value) : Scanner Value := do
  char '['
  let items ← separated (gap *> value <* gap) (char ',')
  unless items.isEmpty do discard (option (char ','))
  gap
  char ']'
  return .array items

def inlineTable (value : Scanner Value) : Scanner Value := do
  char '\x7b'
  let pairs ← separated (pair value <* blanks) (char ',')
  blanks
  char '\x7d'
  match Entries.addAll [] pairs with
  | none => failure
  | some entries => return .table (entryFields entries)

def scalar : Scanner Value :=
  Value.string <$> quotation <|> Value.boolean <$> boolean <|> Value.moment <$> moment <|>
    Value.ofNumber <$> number

/-- A value with arrays and inline tables nested up to `depth` levels. -/
def nestedValue : Nat → Scanner Value
  | 0 => scalar
  | depth + 1 => array (nestedValue depth) <|> inlineTable (nestedValue depth) <|> scalar

def value : Scanner Value := nestedValue (nestingLimit - 1)

/-- A header opens a section of pairs. -/
inductive Header where
  | table (key : Key)
  | element (key : Key)

inductive Statement where
  | pair (key : Key) (value : Value)
  | header (header : Header)

def elementHeader : Scanner Key := word "[[" *> key <* word "]]"

def tableHeader : Scanner Key := char '[' *> key <* char ']'

def statement : Scanner Statement :=
  (do return .header (.element (← elementHeader))) <|>
    (do return .header (.table (← tableHeader))) <|> do
      let (key, value) ← pair value
      return .pair key value

def line : Scanner (Option Statement) := do
  blanks
  let statement ← option statement
  blanks
  discard (option comment)
  return statement

/-- The statements of a document, which a byte order mark may precede. -/
def statements : Scanner (List Statement) := do
  discard (option (char '\ufeff'))
  return (← separated line newline).filterMap id

/-- The pairs up to the first header, and the sections from there on. -/
def sections : List Statement → List (Key × Value) × List (Header × List (Key × Value))
  | [] => ([], [])
  | .pair key value :: rest =>
    let (pairs, later) := sections rest
    ((key, value) :: pairs, later)
  | .header header :: rest =>
    let (pairs, later) := sections rest
    ([], (header, pairs) :: later)

def addSection (entries : Entries) : Header × List (Key × Value) → Option Entries
  | (.table key, pairs) => entries.define key pairs
  | (.element key, pairs) => entries.append key pairs

/-- Reads a document into the fields of its root table. -/
def parse (document : List Char) : Option (List (String × Value)) := do
  let (pairs, later) := sections (← runAll statements document)
  let entries ← later.foldlM addSection (← Entries.addAll [] pairs)
  return entryFields entries

end Hashgraph.Toml
