import Hashgraph.Exchange.Phases

/-! A whole exchange between two replicas that do not change meanwhile. -/

namespace Hashgraph

variable {ε : Type}

def settlePhase {α : Type} (result : Replica.PhaseResult ε α) : Except Fault (α × Session ε) :=
  match result with
  | .ok answer session => .ok (answer, session)
  | .error fault _ => .error fault

variable [DagEvent ε]

/-- Runs a caller's and a listener's fresh sessions up to the exchange of booleans. -/
def exchangeKnowledge (caller listener : Replica ε) (callerName listenerName : String) :
    Except Fault (Session ε × Session ε) := do
  let (callerTips, ours) ← settlePhase
    (caller.sendTips (Session.start callerName listenerName .caller))
  let (listenerTips, theirs) ← settlePhase
    (listener.sendTips (Session.start listenerName callerName .listener))
  let (_, ours) ← settlePhase (caller.receiveTips ours listenerTips)
  let (_, theirs) ← settlePhase (listener.receiveTips theirs callerTips)
  let (callerBooleans, ours) ← settlePhase (caller.sendBooleans ours)
  let (listenerBooleans, theirs) ← settlePhase (listener.sendBooleans theirs)
  let (_, ours) ← settlePhase (caller.receiveBooleans ours listenerBooleans)
  let (_, theirs) ← settlePhase (listener.receiveBooleans theirs callerBooleans)
  return (ours, theirs)

def callerSendList (caller listener : Replica ε) : Except Fault (List ε) := do
  let (ours, _) ← exchangeKnowledge caller listener "caller" "listener"
  let (events, _) ← settlePhase (caller.finish ours)
  return events

def sendLists (caller listener : Replica ε) (callerName listenerName : String) :
    Except Fault (List ε × List ε) := do
  let (ours, theirs) ← exchangeKnowledge caller listener callerName listenerName
  let (toListener, _) ← settlePhase (caller.finish ours)
  let (toCaller, _) ← settlePhase (listener.finish theirs)
  return (toListener, toCaller)

end Hashgraph
