import Hashgraph.Exchange.Session
import Hashgraph.Replica.Intake

/-! The phases of an exchange, seen from one side. First both sides send their tips, then they
tell of each received tip whether they hold a self-child of it, and last each side lists the
events that the other lacks. A phase reads the replica and changes the session; one that fails
leaves the session as it was. -/

namespace Hashgraph.Replica

variable {ε : Type}

abbrev PhaseResult (ε α : Type) := EStateM.Result Fault (Session ε) α

def sendTips (replica : Replica ε) (session : Session ε) : PhaseResult ε (List EventHash) :=
  if Phase.booleansExchanged.rank ≤ session.phase.rank then
    .error (.phaseOrder .tipsExchanged session.phase) session
  else if session.sentTips.isSome then .error (.sessionReused .localTips) session
  else .ok replica.tips { session with sentTips := some replica.tips }

def hasSelfChild (replica : Replica ε) (hash : EventHash) : Bool :=
  (replica.graph.get? hash).any fun shadow => !shadow.isTip

def tipBooleans (replica : Replica ε) (hashes : List EventHash) : List Bool :=
  hashes.map replica.hasSelfChild

def sendBooleans (replica : Replica ε) (session : Session ε) : PhaseResult ε (List Bool) :=
  match session.phase with
  | .tipsExchanged | .booleansExchanged => .ok (replica.tipBooleans session.receivedTips) session
  | .idle | .finished => .error (.phaseOrder .tipsExchanged session.phase) session

/-- Takes one answer on a tip that was sent. A tip no longer held tells nothing. -/
def applyBoolean (replica : Replica ε) (session : Session ε) (answer : EventHash × Bool) :
    Session ε :=
  if answer.2 && replica.graph.contains answer.1 then session.notePeerHas answer.1 else session

def receiveBooleans (replica : Replica ε) (session : Session ε) (received : List Bool) :
    PhaseResult ε Unit :=
  if session.phase = .tipsExchanged then
    match session.sentTips with
    | none => .error .tipsNotSent session
    | some sent =>
      if sent.length = received.length then
        .ok () { (sent.zip received).foldl replica.applyBoolean session with
          phase := .booleansExchanged }
      else .error (.tipCount sent.length received.length) session
  else .error (.phaseOrder .tipsExchanged session.phase) session

variable [DagEvent ε]

/-- Queues a self-descendant of a tip that the peer has, if it is not expired, and searches nothing
from it. -/
def applyDescendant (replica : Replica ε) (session : Session ε) (hash : EventHash) : Session ε :=
  match replica.graph.get? hash with
  | none => session.removeWorkingTip hash
  | some shadow =>
    if shadow.isExpired replica.watermark then session.removeWorkingTip hash
    else (session.enqueue hash shadow.event).removeWorkingTip hash

def applyTip (replica : Replica ε) (session : Session ε) (tip : EventHash) : Session ε :=
  if tip ∈ replica.graph then
    (replica.graph.strictSelfDescendants tip).foldl replica.applyDescendant
      (session.notePeerHas tip)
  else session

/-- Takes the peer's tips, once. The search for missing events will start from the local tips of
this moment that are not settled by a tip of the peer. -/
def receiveTips (replica : Replica ε) (session : Session ε) (received : List EventHash) :
    PhaseResult ε Unit :=
  if session.phase = .idle then
    let begun := { session with receivedTips := received, workingTips := replica.tips }
    .ok () { received.foldl replica.applyTip begun with phase := .tipsExchanged }
  else .error (.sessionReused .peerTips) session

def isKnownToPeer (replica : Replica ε) (session : Session ε) (hash : EventHash) : Bool :=
  session.isMarked .peerHas hash ||
    replica.graph.anyDescendant hash (session.isMarked .peerHas)

/-- Queues the chain from `cursor` down to the first shadow that is expired, that the peer has, or
that an earlier walk has dealt with. -/
def walk (replica : Replica ε) (session : Session ε) (cursor : Option EventHash) : Session ε :=
  match cursor with
  | none => session
  | some hash =>
    match _held : replica.graph.get? hash with
    | none => session
    | some shadow =>
      if session.isMarked .search hash || shadow.isExpired replica.watermark then session
      else if replica.isKnownToPeer session hash then session.setMark .search hash
      else if hash ∈ session.queued then session
      else replica.walk (session.enqueue hash shadow.event) (shadow.selfParent.map Descriptor.hash)
termination_by replica.graph.unvisited session.queued
decreasing_by
  simp only [Session.enqueue, if_neg ‹hash ∉ session.queued›]
  exact ShadowGraph.unvisited_insert_lt (ShadowGraph.mem_iff_isSome.mpr (by simp [_held])) ‹_›

/-- Completes the send list from the working tips and sorts it by generation; events of one
generation stay in the order in which they were queued. -/
def finish (replica : Replica ε) (session : Session ε) : PhaseResult ε (List ε) :=
  if session.phase = .booleansExchanged then
    let walked := session.workingTips.foldl (fun session tip => replica.walk session (some tip))
      session
    let sorted := walked.sendList.mergeSort fun first second =>
      DagEvent.generation first ≤ DagEvent.generation second
    .ok sorted { walked with sendList := sorted, phase := .finished }
  else .error (.phaseOrder .booleansExchanged session.phase) session

end Hashgraph.Replica
