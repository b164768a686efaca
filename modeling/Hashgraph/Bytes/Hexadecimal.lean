import Hashgraph.Bytes.LittleEndian
import Hashgraph.Text.Quoted

/-! Hexadecimal text of byte strings: two lower-case digits a byte. Reading takes the bytes of a
text and accepts both cases. -/

namespace Hashgraph

inductive HexError where
  | oddLength
  /-- The character is the Latin-1 reading of the offending byte. -/
  | invalidCharacter (char : Char) (position : Nat)
deriving DecidableEq, Repr

def HexError.message : HexError → String
  | .oddLength => "Odd number of digits"
  | .invalidCharacter char position =>
    "Invalid character " ++ Text.quotedChar char ++ " at position " ++ toString position

namespace Bytes

/-- The two digits of a byte, high half first. -/
def hexPair (byte : UInt8) : List Char :=
  [Nat.digitChar (byte.toNat / 16), Nat.digitChar (byte.toNat % 16)]

def hexDigits (bytes : Bytes) : List Char := bytes.flatMap hexPair

def toHex (bytes : Bytes) : String := String.ofList bytes.hexDigits

def hexValue? (byte : UInt8) : Option Nat :=
  if 48 ≤ byte ∧ byte ≤ 57 then some (byte.toNat - 48)
  else if 97 ≤ byte ∧ byte ≤ 102 then some (byte.toNat - 87)
  else if 65 ≤ byte ∧ byte ≤ 70 then some (byte.toNat - 55)
  else none

def hexValue (byte : UInt8) (position : Nat) : Except HexError Nat :=
  match hexValue? byte with
  | some value => .ok value
  | none => .error (.invalidCharacter (Char.ofNat byte.toNat) position)

/-- Reads pairs of digits from the given position on; the first byte that is no digit decides. -/
def ofHexPairs (position : Nat) : Bytes → Except HexError Bytes
  | high :: low :: rest => do
    let upper ← hexValue high position
    let lower ← hexValue low (position + 1)
    let tail ← ofHexPairs (position + 2) rest
    return UInt8.ofNat (16 * upper + lower) :: tail
  | _ => .ok []

/-- Reads the bytes of a hexadecimal text. An odd length is reported before any character. -/
def ofHex (text : Bytes) : Except HexError Bytes :=
  if text.length % 2 = 1 then .error .oddLength else ofHexPairs 0 text

def ofText (text : String) : Bytes := text.toUTF8.data.toList

end Bytes
end Hashgraph
