import Hashgraph.Exchange.Fault
import Hashgraph.Event.Basic
import Hashgraph.Text.Record
import Hashgraph.Text.Quoted

/-! Sessions: what one side of one exchange remembers between the phases. A session belongs to its
exchange alone; the replica is only read. -/

namespace Hashgraph

/-- What a session knows of a shadow: that the peer has shown to have the event, or that the search
for missing events ended at it. -/
inductive Mark where
  | peerHas
  | search
deriving DecidableEq, Repr

structure Session (ε : Type) where
  localName : String
  peerName : String
  role : Role
  phase : Phase := .idle
  sentTips : Option (List EventHash) := none
  receivedTips : List EventHash := []
  /-- The local tips from which the search for missing events starts. -/
  workingTips : List EventHash := []
  sendList : List ε := []
  queued : EventHashSet := ∅
  marks : EventHashMap Mark := ∅

namespace Session

variable {ε : Type}

def start (localName peerName : String) (role : Role) : Session ε := { localName, peerName, role }

def connection (session : Session ε) : String :=
  session.localName ++ "->" ++ session.peerName ++ " (" ++ session.role.name ++ ")"

def describe (session : Session ε) : String :=
  Text.record "SyncSession"
    [("connection", Text.quoted session.connection),
      ("phase", session.phase.label),
      ("received_tips", toString session.receivedTips.length),
      ("working_tips", toString session.workingTips.length),
      ("send_list", toString session.sendList.length)]

def isMarked (session : Session ε) (mark : Mark) (hash : EventHash) : Bool :=
  session.marks[hash]? = some mark

/-- A later mark takes the place of an earlier one. -/
def setMark (session : Session ε) (mark : Mark) (hash : EventHash) : Session ε :=
  { session with marks := session.marks.insert hash mark }

def removeWorkingTip (session : Session ε) (hash : EventHash) : Session ε :=
  { session with workingTips := session.workingTips.erase hash }

/-- Notes that the peer has an event: nothing is searched from it any more. -/
def notePeerHas (session : Session ε) (hash : EventHash) : Session ε :=
  (session.setMark .peerHas hash).removeWorkingTip hash

def enqueue (session : Session ε) (hash : EventHash) (event : ε) : Session ε :=
  if hash ∈ session.queued then session
  else
    { session with
      sendList := session.sendList ++ [event]
      queued := session.queued.insert hash }

end Session
end Hashgraph
