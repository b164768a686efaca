import Hashgraph.Event.Draft
import Hashgraph.Exchange.Run
import Hashgraph.Replica.Expiration

/-! A member of the gossip network: its replica, its own last event, and counters of what it did. -/

namespace Hashgraph

structure NodeStats where
  eventsCreated : Nat := 0
  syncs : Nat := 0
  eventsSent : Nat := 0
  eventsAccepted : Nat := 0
  eventsRejected : Nat := 0
  eventsMissingParent : Nat := 0
  shadowsExpired : Nat := 0
deriving DecidableEq, Repr

structure Node where
  name : String
  creator : CreatorId
  /-- How many events of one exchange the node takes. -/
  batchLimit : Nat
  replica : Replica Event := ∅
  lastEvent : Option Descriptor := none
  stats : NodeStats := {}

/-- Why an operation of a node fails. -/
inductive NodeError where
  | event (error : EventError)
  | fault (broken : Fault)
  | notInsertable (node : String) (hash : EventHash) (status : IntakeStatus)
  | overtaken (node : String)
deriving DecidableEq

def NodeError.message : NodeError → String
  | .event error => error.message
  | .fault broken => broken.message
  | .notInsertable node hash status =>
    node ++ ": created event " ++ hash.short ++ " not insertable: " ++ status.code
  | .overtaken node => node ++ ": watermark kept overtaking new events"

end Hashgraph
