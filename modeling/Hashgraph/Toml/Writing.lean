import Hashgraph.Text.Quoted

/-! Writing documents: strings in the plainest form that can hold them, and sections of keys. -/

namespace Hashgraph.Toml

open Text

inductive StringForm where
  | basicLine
  | literalLine
  | basicLines
  | literalLines
deriving DecidableEq, Repr

def needsEscape (c : Char) : Bool := (c < ' ' && c ≠ '\t' && c ≠ '\n') || c = '\x7f'

/-- The length of the longest run of a character. `current` is the length of the run that is open
and `longest` the greatest length so far. -/
def longestRunFrom (c : Char) (current longest : Nat) : List Char → Nat
  | [] => longest
  | first :: rest =>
    if first = c then longestRunFrom c (current + 1) (max longest (current + 1)) rest
    else longestRunFrom c 0 longest rest

def longestRun (c : Char) (text : List Char) : Nat := longestRunFrom c 0 0 text

/-- The form for a text: basic before literal, and one line before many. -/
def StringForm.choose (text : List Char) : StringForm :=
  let escaped := text.any needsEscape
  if !escaped && !text.contains '\\' && !text.contains doubleQuote && !text.contains '\n' then
    .basicLine
  else if !escaped && !text.contains singleQuote && !text.contains '\n' then .literalLine
  else if !escaped && !text.contains '\\' && longestRun doubleQuote text ≤ 2 then .basicLines
  else if !escaped && longestRun singleQuote text ≤ 2 then .literalLines
  else if text.contains '\n' then .basicLines
  else .basicLine

def fourDigits (code : Nat) : List Char :=
  [code / 4096, code / 256 % 16, code / 16 % 16, code % 16].map fun digit =>
    (Nat.digitChar digit).toUpper

def escapeBasic (lines : Bool) (c : Char) : List Char :=
  if c = '\\' then ['\\', '\\']
  else if c = '\x08' then ['\\', 'b']
  else if c = '\t' then ['\\', 't']
  else if c = '\x0c' then ['\\', 'f']
  else if c = '\r' then ['\\', 'r']
  else if c = '\n' then if lines then ['\n'] else ['\\', 'n']
  else if needsEscape c then ['\\', 'u'] ++ fourDigits c.toNat
  else [c]

/-- The text of a basic string. Of quotation marks in a row, `allowed` stand as they are and the
next is escaped; `standing` counts those that stand right before. -/
def writeBasic (lines : Bool) (allowed standing : Nat) : List Char → List Char
  | [] => []
  | c :: rest =>
    if c = doubleQuote then
      if standing < allowed then c :: writeBasic lines allowed (standing + 1) rest
      else ['\\', c] ++ writeBasic lines allowed 0 rest
    else escapeBasic lines c ++ writeBasic lines allowed 0 rest

/-- A string of many lines opens with a line end if it has any. -/
def opening (text : List Char) : List Char := if text.contains '\n' then ['\n'] else []

def writeAs (form : StringForm) (text : List Char) : List Char :=
  match form with
  | .basicLine => [doubleQuote] ++ writeBasic false 0 0 text ++ [doubleQuote]
  | .literalLine => [singleQuote] ++ text ++ [singleQuote]
  | .basicLines =>
    let marks := List.replicate 3 doubleQuote
    marks ++ opening text ++ writeBasic true 2 0 text ++ marks
  | .literalLines =>
    let marks := List.replicate 3 singleQuote
    marks ++ opening text ++ text ++ marks

def writeString (text : String) : String :=
  String.ofList (writeAs (StringForm.choose text.toList) text.toList)

/-- Integers are limited to signed words of 64 bits. -/
def writeUnsigned (value : UInt64) : Option String :=
  if value.toNat ≤ Int64.maxValue.toInt then some (toString value.toNat) else none

def writeSigned (value : Int64) : String := toString value.toInt

def writeBoolean (value : Bool) : String := if value then "true" else "false"

def writeSection (name : String) (settings : List (String × String)) : String :=
  "[" ++ name ++ "]\n" ++
    String.join (settings.map fun (key, value) => key ++ " = " ++ value ++ "\n")

end Hashgraph.Toml
