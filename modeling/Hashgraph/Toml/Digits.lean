import Hashgraph.Toml.Scanner

/-! Digits and the numbers that they write. -/

namespace Hashgraph.Toml

open Scanner

def digitValue (c : Char) : Nat :=
  if c.isDigit then c.toNat - 48 else if c.isLower then c.toNat - 87 else c.toNat - 55

def isHexDigit (c : Char) : Bool := c.isDigit || ('a' ≤ c && c ≤ 'f') || ('A' ≤ c && c ≤ 'F')

def isOctalDigit (c : Char) : Bool := '0' ≤ c && c ≤ '7'

def isBinaryDigit (c : Char) : Bool := c = '0' || c = '1'

def ofDigits (base : Nat) (digits : List Char) : Nat :=
  digits.foldl (fun number c => number * base + digitValue c) 0

/-- At least one digit; an underscore may stand between two of them. -/
def digitRun (isDigit : Char → Bool) : Scanner (List Char) := do
  let first ← satisfy isDigit
  return first :: (← many (discard (option (char '_')) *> satisfy isDigit))

/-- A decimal number of a fixed width, within bounds. -/
def fixedWidth (width least most : Nat) : Scanner Nat := do
  let number := ofDigits 10 (← exactly (satisfy Char.isDigit) width)
  if least ≤ number ∧ number ≤ most then return number else failure

/-- An optional sign; answers whether it is a minus. -/
def sign : Scanner Bool := do
  return (← option (satisfy fun c => c = '+' || c = '-')) = some '-'

end Hashgraph.Toml
