import Hashgraph.Text.DefaultIgnorable
import Hashgraph.Text.GraphemeExtend
import Hashgraph.Text.Unprintable

/-! Quoted text: a text between quotation marks, on one line, with every character that has no
shape of its own written as an escape. -/

namespace Hashgraph.Text

/-- The halfwidth sound marks are letters with a cell of their own, although they extend what stands
before them. -/
def soundMarks : CodeRanges := [(0xff9e, 0xff9f)]

/-- A character that joins the one before it instead of standing by itself. -/
def isJoining (c : Char) : Bool :=
  graphemeExtend.contains c.toNat && !soundMarks.contains c.toNat

/-- A character that would not be seen, or not as one of its own. -/
def isHidden (c : Char) : Bool :=
  unprintable.contains c.toNat || defaultIgnorable.contains c.toNat || isJoining c

/-- What the look-ups find is what the ranges say. -/
theorem isHidden_iff (c : Char) : isHidden c = true ↔
    unprintable.Includes c.toNat ∨ defaultIgnorable.Includes c.toNat ∨
      graphemeExtend.Includes c.toNat ∧ ¬ soundMarks.Includes c.toNat := by
  have marks : soundMarks.ascendingFrom 0 = true := by decide
  rw [isHidden, isJoining, Bool.or_eq_true, Bool.or_eq_true, Bool.and_eq_true, Bool.not_eq_true',
    ← Bool.not_eq_true, CodeRanges.contains_iff unprintable_ascending,
    CodeRanges.contains_iff defaultIgnorable_ascending,
    CodeRanges.contains_iff graphemeExtend_ascending, CodeRanges.contains_iff marks, or_assoc]

def hexNumeral (number : Nat) : List Char := Nat.toDigits 16 number

def escape (quote c : Char) : List Char :=
  if c = quote then ['\\', quote]
  else if c = '\\' then ['\\', '\\']
  else if c = '\n' then ['\\', 'n']
  else if c = '\r' then ['\\', 'r']
  else if c = '\t' then ['\\', 't']
  else if c = '\x00' then ['\\', '0']
  else if isHidden c then ['\\', 'u', '\x7b'] ++ hexNumeral c.toNat ++ ['\x7d']
  else [c]

def doubleQuote : Char := '\x22'

def singleQuote : Char := '\x27'

def quoted (text : String) : String :=
  String.ofList ([doubleQuote] ++ text.toList.flatMap (escape doubleQuote) ++ [doubleQuote])

def quotedChar (c : Char) : String :=
  String.ofList ([singleQuote] ++ escape singleQuote c ++ [singleQuote])

end Hashgraph.Text
