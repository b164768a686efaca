import Hashgraph.Event.Wire

/-! Drafts of events. A draft collects what an event shall say; building it settles the generation
and seals the event. -/

namespace Hashgraph

inductive EventError where
  | hex (error : HexError)
  | hashLength (length : Nat)
  | duplicateParents (hash : EventHash)
  | generationTooLow (generation parent : Generation)
  | undecodable (error : WireError)
deriving DecidableEq

def EventError.message : EventError → String
  | .hex error => "Invalid hex encoding: " ++ error.message
  | .hashLength length => "Invalid hash length: expected 32 bytes, got " ++ toString length
  | .duplicateParents hash => "Event " ++ hash.short ++ " names the same event as both parents"
  | .generationTooLow generation parent =>
    "Generation " ++ toString generation ++ " does not exceed parent generation " ++
      toString parent
  | .undecodable error => "Serialization error: " ++ error.message

def EventHash.ofHex (text : Bytes) : Except EventError EventHash :=
  match Bytes.ofHex text with
  | .error error => .error (.hex error)
  | .ok bytes =>
    if sized : bytes.length = 32 then .ok ⟨⟨bytes.toArray, sized⟩⟩
    else .error (.hashLength bytes.length)

/-- What an event shall say; the generation and the timestamp may be left open. -/
structure Draft where
  creator : CreatorId
  selfParent : Option Descriptor := none
  otherParent : Option Descriptor := none
  generation : Option Generation := none
  transactions : List Bytes := []
  timestamp : Option Timestamp := none

namespace Draft

def addTransaction (draft : Draft) (transaction : Bytes) : Draft :=
  { draft with transactions := draft.transactions ++ [transaction] }

def parents (draft : Draft) : List Descriptor :=
  draft.selfParent.toList ++ draft.otherParent.toList

def parentGeneration? (draft : Draft) : Option Generation :=
  (draft.parents.map Descriptor.generation).max?

/-- The event that both parents name, if they name the same. -/
def sharedParent? (draft : Draft) : Option EventHash :=
  match draft.selfParent, draft.otherParent with
  | some selfParent, some otherParent =>
    if selfParent.hash = otherParent.hash then some selfParent.hash else none
  | _, _ => none

/-- A generation that is asked for must exceed those of the parents; one that is left open follows
the highest of them. -/
def settleGeneration (draft : Draft) : Except EventError Generation :=
  match draft.generation, draft.parentGeneration? with
  | some generation, some parent =>
    if generation ≤ parent then .error (.generationTooLow generation parent) else .ok generation
  | some generation, none => .ok generation
  | none, some parent => .ok parent.next
  | none, none => .ok Generation.first

/-- Seals the event that the draft describes; `now` stands in for a timestamp left open. -/
def build (draft : Draft) (now : Timestamp) : Except EventError Event :=
  match draft.sharedParent? with
  | some hash => .error (.duplicateParents hash)
  | none =>
    match draft.settleGeneration with
    | .error error => .error error
    | .ok generation =>
      let content : Content :=
        { creator := draft.creator
          generation := generation
          selfParent := draft.selfParent
          otherParent := draft.otherParent
          transactions := draft.transactions
          timestamp := draft.timestamp.getD now }
      .ok content.toEvent

end Draft

def Event.genesis (creator : CreatorId) (transactions : List Bytes) (now : Timestamp) : Event :=
  Content.toEvent ⟨creator, Generation.first, none, none, transactions, now⟩

end Hashgraph
