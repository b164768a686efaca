import Hashgraph.Graph.Ancestry
import Hashgraph.Graph.SlotTable

/-! A replica is one member's copy of the history: the shadow graph, the tips of the creators'
chains in the order of their arrival, and the watermark at and below which events are expired.
Intake takes an event in when it is new, not expired, and each parent is held or expired. -/

namespace Hashgraph

inductive IntakeStatus where
  | insertable
  | nullEvent
  | duplicate
  | expired
  | unknownOtherParent
  | unknownSelfParent
deriving DecidableEq, Repr

namespace IntakeStatus

def all : List IntakeStatus :=
  [.insertable, .nullEvent, .duplicate, .expired, .unknownOtherParent, .unknownSelfParent]

def code : IntakeStatus → String
  | .insertable => "INSERTABLE"
  | .nullEvent => "NULL_EVENT"
  | .duplicate => "DUPLICATE_SHADOW_EVENT"
  | .expired => "EXPIRED_EVENT"
  | .unknownOtherParent => "UNKNOWN_CURRENT_OTHER_PARENT"
  | .unknownSelfParent => "UNKNOWN_CURRENT_SELF_PARENT"

def describe : IntakeStatus → String
  | .insertable => "Insertable"
  | .nullEvent => "NullEvent"
  | .duplicate => "DuplicateShadowEvent"
  | .expired => "ExpiredEvent"
  | .unknownOtherParent => "UnknownCurrentOtherParent"
  | .unknownSelfParent => "UnknownCurrentSelfParent"

def isInsertable (status : IntakeStatus) : Bool := status = .insertable

/-- Whether the event may be accepted later, once a parent has come in. -/
def isRetryable : IntakeStatus → Bool
  | .unknownOtherParent | .unknownSelfParent => true
  | .insertable | .nullEvent | .duplicate | .expired => false

end IntakeStatus

structure Replica (ε : Type) where
  graph : ShadowGraph ε := ∅
  tips : List EventHash := []
  watermark : Generation := Generation.nothingExpired

namespace Replica

variable {ε : Type}

def empty : Replica ε := {}

instance : EmptyCollection (Replica ε) := ⟨empty⟩

def addTip (tips : List EventHash) (hash : EventHash) : List EventHash :=
  if hash ∈ tips then tips else tips ++ [hash]

def isExpired (replica : Replica ε) (generation : Generation) : Bool :=
  generation ≤ replica.watermark

/-- Whether a parent is neither held nor expired, so that it may still come in. -/
def isMissing (replica : Replica ε) (parent : Descriptor) : Bool :=
  !replica.graph.contains parent.hash && !replica.isExpired parent.generation

variable [DagEvent ε]

/-- Adopts a graph whose hashes stand in some order. Its tips are the shadows without recorded
self-children, in that order. -/
def ofGraph (graph : ShadowGraph ε) (order : List EventHash) (watermark : Generation) :
    Replica ε :=
  { graph, watermark, tips := order.filter fun hash => (graph.get? hash).any Shadow.isTip }

/-- Adopts the graph into which events go one after the other. Its hashes are read from a table
into which they went in the same order. -/
def adopt (events : List ε) (watermark : Generation) : Except Fault (Replica ε) := do
  let graph ← events.foldlM ShadowGraph.insert ∅
  return ofGraph graph (SlotTable.ofList (events.map DagEvent.hash)).toList watermark

def classify (replica : Replica ε) (event : ε) : IntakeStatus :=
  if replica.graph.contains (DagEvent.hash event) then .duplicate
  else if replica.isExpired (DagEvent.generation event) then .expired
  else if (DagEvent.otherParent event).any replica.isMissing then .unknownOtherParent
  else if (DagEvent.selfParent event).any replica.isMissing then .unknownSelfParent
  else .insertable

/-- The status of an offer that may come without an event. -/
def classifyOffer (replica : Replica ε) (offer : Option ε) : IntakeStatus :=
  match offer with
  | none => .nullEvent
  | some event => replica.classify event

/-- Takes an insertable event in: it becomes the last tip and takes its self-parent's place among
the tips. Any other event is refused. -/
def addEvent (replica : Replica ε) (event : ε) : IntakeStatus × Replica ε :=
  match replica.classify event with
  | .insertable =>
    match replica.graph.insert event with
    | .error _ => (.duplicate, replica)
    | .ok graph =>
      let tips := addTip replica.tips (DagEvent.hash event)
      let tips :=
        match DagEvent.selfParent event with
        | none => tips
        | some parent => tips.erase parent.hash
      (.insertable, { replica with graph, tips })
  | status => (status, replica)

def addEvents (replica : Replica ε) : List ε → List IntakeStatus × Replica ε
  | [] => ([], replica)
  | event :: rest =>
    let (status, replica) := replica.addEvent event
    let (statuses, replica) := replica.addEvents rest
    (status :: statuses, replica)

def event? (replica : Replica ε) (hash : EventHash) : Option ε :=
  (replica.graph.get? hash).map Shadow.event

def maxGeneration? (replica : Replica ε) : Option Generation :=
  (replica.graph.toList.map Shadow.generation).max?

end Replica
end Hashgraph
