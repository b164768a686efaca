import Hashgraph.Exchange.Run
import Hashgraph.Proofs.Exchange.Expiry

/-! An exchange between replicas that do not change meanwhile never fails, whatever the replicas hold,
and each side lists only what it holds. -/

namespace Hashgraph

open DagEvent Replica

variable {ε : Type} [DagEvent ε]

namespace Replica

variable {replica : Replica ε} {session after : Session ε} {event : ε}

omit [DagEvent ε] in
theorem mem_events_of_get? {hash : EventHash} {shadow : Shadow ε}
    (found : replica.graph.get? hash = some shadow) : shadow.event ∈ replica.events :=
  ⟨hash, congrArg (Option.map Shadow.event) found⟩

theorem held_of_mem_applyDescendant {hash : EventHash}
    (mem : event ∈ (replica.applyDescendant session hash).sendList) :
    event ∈ session.sendList ∨ event ∈ replica.events := by
  unfold applyDescendant at mem
  split at mem
  · exact .inl mem
  · rename_i shadow found
    split at mem
    · exact .inl mem
    · refine (of_mem_enqueue mem).imp_right ?_
      rintro rfl
      exact mem_events_of_get? found

theorem held_of_mem_applyTip {tip : EventHash}
    (mem : event ∈ (replica.applyTip session tip).sendList) :
    event ∈ session.sendList ∨ event ∈ replica.events := by
  unfold applyTip at mem
  split at mem
  · have listed := of_mem_foldl _ (fun _ _ => held_of_mem_applyDescendant) mem
    rwa [Session.notePeerHas_sendList] at listed
  · exact .inl mem

theorem held_of_mem_walk {cursor : Option EventHash}
    (mem : event ∈ (replica.walk session cursor).sendList) :
    event ∈ session.sendList ∨ event ∈ replica.events := by
  fun_induction replica.walk session cursor with
  | case1 | case2 | case3 | case4 | case5 => exact .inl mem
  | case6 session hash shadow found active unknown fresh ih =>
    rcases ih mem with listed | held
    · refine (of_mem_enqueue listed).imp_right ?_
      rintro rfl
      exact mem_events_of_get? found
    · exact .inr held

theorem held_of_finish {sendList : List ε} (finished : replica.finish session = .ok sendList after)
    (held : ∀ event ∈ session.sendList, event ∈ replica.events) :
    ∀ event ∈ sendList, event ∈ replica.events := by
  intro event mem
  rw [mem_of_finish finished] at mem
  exact (of_mem_foldl _ (fun _ _ => held_of_mem_walk) mem).elim (held event) id

end Replica

/-- A session that is ready for the last phase and lists only what its side holds. -/
structure Session.Ready (own : Replica ε) (session : Session ε) : Prop where
  phase : session.phase = .booleansExchanged
  held : ∀ event ∈ session.sendList, event ∈ own.events

/-- One side of an exchange, whatever either side holds. -/
theorem Session.Untouched.exists_ready {session : Session ε} (untouched : session.Untouched)
    (own peer : Replica ε) (sent : session.sentTips = some own.tips) : ∃ briefed ready,
      own.receiveTips session peer.tips = .ok () briefed ∧
      own.sendBooleans briefed = .ok (own.tipBooleans peer.tips) briefed ∧
      own.receiveBooleans briefed (peer.tipBooleans own.tips) = .ok () ready ∧
      ready.Ready own := by
  obtain ⟨briefed, taken⟩ : ∃ briefed, own.receiveTips session peer.tips = .ok () briefed :=
    ⟨_, receiveTips_eq_ok.mpr ⟨untouched.idle, rfl⟩⟩
  have ⟨phase, known, receivedTips, held⟩ : briefed.phase = .tipsExchanged ∧
      briefed.sentTips = some own.tips ∧ briefed.receivedTips = peer.tips ∧
      ∀ event ∈ briefed.sendList, event ∈ own.events := by
    obtain ⟨-, rfl⟩ := receiveTips_eq_ok.mp taken
    refine ⟨rfl, foldl_applyTip_told.1.trans sent, foldl_applyTip_told.2, fun event mem => ?_⟩
    refine (of_mem_foldl _ (fun _ _ => held_of_mem_applyTip) mem).resolve_left fun earlier => ?_
    rw [untouched.sendList] at earlier
    exact List.not_mem_nil earlier
  obtain ⟨ready, answers⟩ :
      ∃ ready, own.receiveBooleans briefed (peer.tipBooleans own.tips) = .ok () ready :=
    ⟨_, receiveBooleans_eq_ok.mpr ⟨phase, own.tips, known, (List.length_map _).symm, rfl⟩⟩
  refine ⟨briefed, ready, taken, ?_, answers, ?_, ?_⟩
  · simp only [sendBooleans, phase, receivedTips]
  · obtain ⟨-, _, -, -, rfl⟩ := receiveBooleans_eq_ok.mp answers
    rfl
  · rw [sendList_of_receiveBooleans answers]
    exact held

variable (caller listener : Replica ε) (callerName listenerName : String)

/-- Both lists are drawn up, from what either side holds. -/
theorem sendLists_total : ∃ toListener toCaller,
    sendLists caller listener callerName listenerName = .ok (toListener, toCaller) ∧
      (∀ event ∈ toListener, event ∈ caller.events) ∧
      ∀ event ∈ toCaller, event ∈ listener.events := by
  obtain ⟨ownBriefed, own, ownTakes, ownAnswers, ownLearns, ready⟩ :=
    (Session.untouched_sent callerName listenerName .caller caller.tips).exists_ready caller
      listener rfl
  obtain ⟨peerBriefed, peer, peerTakes, peerAnswers, peerLearns, peerReady⟩ :=
    (Session.untouched_sent listenerName callerName .listener listener.tips).exists_ready listener
      caller rfl
  obtain ⟨toListener, _, finished⟩ := caller.exists_finish ready.phase
  obtain ⟨toCaller, _, peerFinished⟩ := listener.exists_finish peerReady.phase
  refine ⟨toListener, toCaller, ?_, held_of_finish finished ready.held,
    held_of_finish peerFinished peerReady.held⟩
  simp only [sendLists, exchangeKnowledge, settlePhase, sendTips_start, ownTakes, peerTakes,
    ownAnswers, peerAnswers, ownLearns, peerLearns, finished, peerFinished, bind, Except.bind, pure,
    Except.pure]

end Hashgraph
