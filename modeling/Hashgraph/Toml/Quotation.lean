import Hashgraph.Toml.Digits
import Hashgraph.Text.Quoted

/-! Quoted strings. A basic string is in double quotation marks and knows escapes; a literal
string is in single ones and knows none. Three marks open a string of many lines. -/

namespace Hashgraph.Toml

open Scanner Text

def isBasicChar (c : Char) : Bool := isPlain c && c ≠ doubleQuote && c ≠ '\\'

def isLiteralChar (c : Char) : Bool := isPlain c && c ≠ singleQuote

/-- A character by the digits of its code point, which has to be a character's. -/
def codePoint (width : Nat) : Scanner Char := do
  let code := ofDigits 16 (← exactly (satisfy isHexDigit) width)
  if code.isValidChar then return Char.ofNat code else failure

def escape : Scanner Char := do
  char '\\'
  match ← satisfy fun _ => true with
  | 'b' => return '\x08'
  | 't' => return '\t'
  | 'n' => return '\n'
  | 'f' => return '\x0c'
  | 'r' => return '\r'
  | '\x22' => return '\x22'
  | '\\' => return '\\'
  | 'u' => codePoint 4
  | 'U' => codePoint 8
  | _ => failure

def onLine (quote : Char) (item : Scanner Char) : Scanner String := do
  char quote
  let text ← many item
  char quote
  return String.ofList text

def basicLine : Scanner String := onLine doubleQuote (satisfy isBasicChar <|> escape)

def literalLine : Scanner String := onLine singleQuote (satisfy isLiteralChar)

/-- One or two quotation marks that belong to the text. -/
def innerQuotes (quote : Char) : Scanner (List Char) := do
  let marks ← run (· = quote)
  if marks.length = 1 ∨ marks.length = 2 then return marks else failure

/-- The three marks that close a string of many lines, after up to two that belong to the text. -/
def closingQuotes (quote : Char) : Scanner (List Char) := do
  let marks ← run (· = quote)
  if 3 ≤ marks.length ∧ marks.length ≤ 5 then return marks.drop 3 else failure

/-- A string of many lines. A line end right after the opening marks does not count, and every
other one is a line feed. -/
def onLines (quote : Char) (item : Scanner (List Char)) : Scanner String := do
  discard (exactly (char quote) 3)
  discard (option newline)
  let text ← many (item <|> (do newline; return ['\n']) <|> innerQuotes quote)
  let last ← closingQuotes quote
  return String.ofList (text.flatten ++ last)

/-- A backslash at the end of a line joins it to the next text. -/
def joinedLines : Scanner (List Char) := do
  char '\\'
  blanks
  newline
  discard (many (discard (satisfy isBlank) <|> newline))
  return []

def basicLines : Scanner String :=
  onLines doubleQuote (joinedLines <|> (do return [← satisfy isBasicChar <|> escape]))

def literalLines : Scanner String :=
  onLines singleQuote (do return [← satisfy isLiteralChar])

def quotation : Scanner String := basicLines <|> basicLine <|> literalLines <|> literalLine

end Hashgraph.Toml
