import Hashgraph.Toml.Digits

/-! Integers of 64 bits and floating-point numbers. A floating-point number keeps the decimal that
is written. -/

namespace Hashgraph.Toml

open Scanner

inductive Decimal where
  /-- The number `digits · 10 ^ exponent`, or its negation. -/
  | finite (negative : Bool) (digits : Nat) (exponent : Int)
  | infinite (negative : Bool)
  | nan
deriving DecidableEq, Repr

inductive Number where
  | integer (value : Int)
  | float (value : Decimal)
deriving DecidableEq, Repr

/-- Numbers from here on round to infinity in the binary format of 64 bits. -/
def overflowBound : Nat := 1 <<< 1024 - 1 <<< 970

/-- Whether `digits · 10 ^ exponent` rounds to infinity. Exponents are cut down to where a larger
one makes no difference. -/
def overflows (digits : Nat) (exponent : Int) : Bool :=
  match exponent with
  | .ofNat exponent => overflowBound ≤ digits * Nat.pow 10 (min exponent 310)
  | .negSucc exponent =>
    overflowBound * Nat.pow 10 (min (exponent + 1) (Nat.toDigits 10 digits).length) ≤ digits

def integerOf (value : Int) : Scanner Number :=
  if Int64.minValue.toInt ≤ value ∧ value ≤ Int64.maxValue.toInt then return .integer value
  else failure

def radixInteger (mark : String) (base : Nat) (isDigit : Char → Bool) : Scanner Number := do
  word mark
  integerOf (ofDigits base (← digitRun isDigit))

def specialFloat : Scanner Number := do
  let negative ← sign
  (do word "inf"; return .float (.infinite negative)) <|> (do word "nan"; return .float .nan)

def fraction : Scanner (List Char) := char '.' *> digitRun Char.isDigit

def exponent : Scanner Int := do
  discard (satisfy fun c => c = 'e' || c = 'E')
  let negative ← sign
  let digits ← digitRun Char.isDigit
  return if negative then -(ofDigits 10 digits : Int) else ofDigits 10 digits

/-- A number in base ten. It has no leading zeros, and it is an integer if it has neither a
fraction nor an exponent. A number too large for a floating-point number is refused; a number
too small is minus infinity. -/
def decimal : Scanner Number := do
  let negative ← sign
  let whole ← digitRun Char.isDigit
  if whole.length ≠ 1 ∧ whole.head? = some '0' then failure
  let fraction ← option fraction
  let exponent ← option exponent
  match fraction, exponent with
  | none, none =>
    let size : Int := ofDigits 10 whole
    integerOf (if negative then -size else size)
  | _, _ =>
    let places := fraction.getD []
    let digits := ofDigits 10 (whole ++ places)
    let power := exponent.getD 0 - places.length
    if overflows digits power then
      if negative then return .float (.infinite true) else failure
    else return .float (.finite negative digits power)

def number : Scanner Number :=
  radixInteger "0x" 16 isHexDigit <|> radixInteger "0o" 8 isOctalDigit <|>
    radixInteger "0b" 2 isBinaryDigit <|> specialFloat <|> decimal

end Hashgraph.Toml
