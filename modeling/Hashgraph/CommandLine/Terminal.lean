/-! Text for terminals. Names in a help stand out by control sequences, which are taken out again
where the text does not go to a terminal, together with those in any other part of the text. White
space within a sequence is shown, with the text that follows it, and a control character leads back
into the sequence. -/

namespace Hashgraph.CommandLine

def emphasized (text : String) : String := "\x1b[1m" ++ text ++ "\x1b[0m"

def isBreak (c : Char) : Bool := c = '\t' || c = '\n' || c = '\x0c' || c = '\r'

/-- What plain text shows: all but the other control characters. -/
def isShown (c : Char) : Bool := isBreak c || (0x20 ≤ c.toNat && c ≠ '\x7f')

/-- How far a control sequence has been read. -/
inductive Sequence where
  | escape
  | escapeIntermediate
  | control
  /-- Within a command to the operating system, which a bell ends. -/
  | system
  | device
  | deviceParameters
  | deviceIntermediate
  | string
deriving DecidableEq, Repr

namespace Sequence

def within (c : Char) (first last : Char) : Bool := first ≤ c && c ≤ last

/-- The string terminator is a byte, which a character beyond ASCII may hold. -/
def holdsTerminator (c : Char) : Bool :=
  0x80 ≤ c.toNat && (String.singleton c).toUTF8.toList.contains 0x9c

/-- Whether control characters have their effect within a sequence. -/
def carriesOut : Sequence → Bool
  | .escape | .escapeIntermediate | .control => true
  | _ => false

def afterEscape (c : Char) : Option Sequence :=
  if c = '[' then some .control
  else if c = ']' then some .system
  else if c = 'P' then some .device
  else if c = 'X' || c = '^' || c = '_' then some .string
  else if within c ' ' '/' then some .escapeIntermediate
  else if within c '0' '~' then none
  else some .escape

def afterDevice (sequence : Sequence) (c : Char) : Sequence :=
  if within c ' ' '/' then .deviceIntermediate
  else if within c '@' '~' then .string
  else
    match sequence with
    | .device => if within c '0' '?' then .deviceParameters else sequence
    | .deviceParameters => if within c '<' '?' then .string else sequence
    | _ => if within c '0' '?' then .string else sequence

def next (sequence : Sequence) (c : Char) : Option Sequence :=
  match sequence with
  | .escape => afterEscape c
  | .escapeIntermediate => if within c '0' '~' then none else some sequence
  | .control => if within c '@' '~' then none else some sequence
  | .system => if c = '\x07' then none else some sequence
  | .device | .deviceParameters | .deviceIntermediate => some (afterDevice sequence c)
  | .string => if holdsTerminator c then none else some sequence

end Sequence

inductive Reading where
  | plain
  | within (sequence : Sequence)
  /-- In shown text that white space has started within a sequence. -/
  | interrupted (sequence : Sequence)
deriving DecidableEq, Repr

namespace Reading

def ofSequence : Option Sequence → Reading
  | none => plain
  | some sequence => within sequence

/-- The reading after a character. A character beyond ASCII in shown text gives up the sequence that
was interrupted. -/
def next (reading : Reading) (c : Char) : Reading :=
  if c = '\x1b' then within .escape
  else if c = '\x18' || c = '\x1a' then plain
  else
    match reading with
    | plain => plain
    | within sequence =>
      if sequence.carriesOut && isBreak c then interrupted sequence
      else ofSequence (sequence.next c)
    | interrupted sequence =>
      if 0x80 ≤ c.toNat then plain
      else if isShown c then interrupted sequence
      else ofSequence (sequence.next c)

def shows (reading : Reading) (c : Char) : Bool :=
  match reading with
  | plain | interrupted _ => isShown c
  | within sequence => sequence.carriesOut && isBreak c

end Reading

def plainCharacters (reading : Reading) : List Char → List Char
  | [] => []
  | c :: rest =>
    let shown := plainCharacters (reading.next c) rest
    if reading.shows c then c :: shown else shown

def plainText (text : String) : String := String.ofList (plainCharacters .plain text.toList)

end Hashgraph.CommandLine
