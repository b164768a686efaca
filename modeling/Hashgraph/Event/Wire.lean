import Hashgraph.Event.Basic

/-! The byte form of events: fixed-width little-endian fields in declaration order, a tag byte
before each optional parent, a 64-bit length before each list. The digest of an event is taken
over pieces of its contents, fed to it one after the other. -/

namespace Hashgraph

inductive WireError where
  | endOfInput
  | badTag (tag : UInt8)
  | hashMismatch (hash : EventHash)
deriving DecidableEq

def WireError.message : WireError → String
  | .endOfInput => "io error: unexpected end of file"
  | .badTag tag => "tag for enum is not valid, found " ++ toString tag
  | .hashMismatch hash => "hash mismatch for event " ++ hash.short

namespace Wire

def putLength (length : Nat) : Bytes := Bytes.littleEndian 8 length

def putDescriptor (descriptor : Descriptor) : Bytes :=
  descriptor.hash.toBytes ++ Bytes.ofSigned descriptor.generation

def putParent : Option Descriptor → Bytes
  | none => [0]
  | some parent => 1 :: putDescriptor parent

def putTransaction (transaction : Bytes) : Bytes := putLength transaction.length ++ transaction

def putTransactions (transactions : List Bytes) : Bytes :=
  putLength transactions.length ++ transactions.flatMap putTransaction

/-- Reads a value off the front of the input. -/
abbrev Reader (α : Type) := Bytes → Except WireError (α × Bytes)

/-- The first `count` bytes and the rest, if there are that many. -/
def splitBytes? : Nat → Bytes → Option (Bytes × Bytes)
  | 0, input => some ([], input)
  | _ + 1, [] => none
  | count + 1, byte :: input =>
    match splitBytes? count input with
    | none => none
    | some (front, rest) => some (byte :: front, rest)

def takeBytes (count : Nat) : Reader Bytes := fun input =>
  match splitBytes? count input with
  | some split => .ok split
  | none => .error .endOfInput

def takeNumber (width : Nat) : Reader Nat := fun input => do
  let (field, rest) ← takeBytes width input
  return (Bytes.value field, rest)

def takeSigned : Reader Int64 := fun input => do
  let (number, rest) ← takeNumber 8 input
  return ((UInt64.ofNat number).toInt64, rest)

def takeVector (width : Nat) : Reader (Vector UInt8 width) := fun input => do
  let (field, rest) ← takeBytes width input
  if sized : field.length = width then
    return (⟨field.toArray, sized⟩, rest)
  else
    throw .endOfInput

def takeDescriptor : Reader Descriptor := fun input => do
  let (hash, rest) ← takeVector 32 input
  let (generation, rest) ← takeSigned rest
  return (⟨⟨hash⟩, generation⟩, rest)

def takeParent : Reader (Option Descriptor)
  | [] => .error .endOfInput
  | tag :: rest =>
    if tag = 0 then .ok (none, rest)
    else if tag = 1 then do
      let (parent, rest) ← takeDescriptor rest
      return (some parent, rest)
    else .error (.badTag tag)

def takeTransaction : Reader Bytes := fun input => do
  let (length, rest) ← takeNumber 8 input
  takeBytes length rest

def takeMany {α : Type} (take : Reader α) : Nat → Reader (List α)
  | 0, input => .ok ([], input)
  | count + 1, input => do
    let (item, rest) ← take input
    let (items, rest) ← takeMany take count rest
    return (item :: items, rest)

def takeTransactions : Reader (List Bytes) := fun input => do
  let (count, rest) ← takeNumber 8 input
  takeMany takeTransaction count rest

def takeContent : Reader Content := fun input => do
  let (creator, rest) ← takeVector 32 input
  let (generation, rest) ← takeSigned rest
  let (selfParent, rest) ← takeParent rest
  let (otherParent, rest) ← takeParent rest
  let (transactions, rest) ← takeTransactions rest
  let (timestamp, rest) ← takeSigned rest
  return (⟨⟨creator⟩, generation, selfParent, otherParent, transactions, timestamp⟩, rest)

end Wire

namespace Content

/-- The byte form of the contents. -/
def encode (content : Content) : Bytes :=
  content.creator.toBytes ++ Bytes.ofSigned content.generation ++
    Wire.putParent content.selfParent ++ Wire.putParent content.otherParent ++
    Wire.putTransactions content.transactions ++ Bytes.ofSigned content.timestamp

def parentPieces : Option Descriptor → List Bytes
  | some parent => [[1], parent.hash.toBytes, Bytes.ofSigned parent.generation]
  | none => [[0]]

/-- What the digest takes of a transaction: how long it is, and what it says. -/
def transactionPieces (transaction : Bytes) : List Bytes :=
  [Bytes.ofWord (.ofNat transaction.length), transaction]

/-- What the digest takes of the contents, in order. -/
def pieces (content : Content) : List Bytes :=
  [content.creator.toBytes, Bytes.ofSigned content.generation] ++
    [content.selfParent, content.otherParent].flatMap parentPieces ++
    [Bytes.ofWord (.ofNat content.transactions.length)] ++
    content.transactions.flatMap transactionPieces ++ [Bytes.ofSigned content.timestamp]

/-- The bytes over which the digest is taken. -/
def preimage (content : Content) : Bytes := content.pieces.flatten

def digest (content : Content) : EventHash := EventHash.ofContent content.preimage

def toEvent (content : Content) : Event := { content with hash := content.digest }

end Content

namespace Event

/-- The hash of an authentic event is the digest of its contents. -/
def IsAuthentic (event : Event) : Prop := event.hash = event.toContent.digest

instance (event : Event) : Decidable event.IsAuthentic := inferInstanceAs (Decidable (_ = _))

def encode (event : Event) : Bytes := event.hash.toBytes ++ event.toContent.encode

/-- Reads an event and checks its hash. What follows the event is ignored, and its parents are
taken as they are. -/
def decode (input : Bytes) : Except WireError Event := do
  let (hash, rest) ← Wire.takeVector 32 input
  let (content, _) ← Wire.takeContent rest
  let event : Event := { content with hash := ⟨hash⟩ }
  if event.IsAuthentic then return event else throw (.hashMismatch event.hash)

end Event
end Hashgraph
