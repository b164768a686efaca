import Hashgraph.Exchange.Run
import Hashgraph.Proofs.Exchange.Phases
import Hashgraph.Proofs.Exchange.Pursuit

/-! An exchange between two replicas that do not change meanwhile. It never fails, and each side's
session ends up informed of what the other side has. -/

namespace Hashgraph

open DagEvent ShadowGraph Replica

variable {ε : Type} [DagEvent ε]

/-- A session in which the peer's tips and the peer's answers on all own tips are applied. -/
structure Session.Informed (own peer : Replica ε) (session : Session ε) : Prop where
  ready : session.phase = .booleansExchanged
  learnt : ∃ briefed, own.Briefed peer.tips briefed ∧
    own.Answered (own.tips.zip (peer.tipBooleans own.tips)) briefed session

/-- One side of an exchange: what it takes, what it answers, and how it ends up. -/
theorem Session.Untouched.exists_informed {session : Session ε} (untouched : session.Untouched)
    {own : Replica ε} (tracked : own.Tracked) (peer : Replica ε)
    (sent : session.sentTips = some own.tips) : ∃ briefed informed,
      own.receiveTips session peer.tips = .ok () briefed ∧
      own.sendBooleans briefed = .ok (own.tipBooleans peer.tips) briefed ∧
      own.receiveBooleans briefed (peer.tipBooleans own.tips) = .ok () informed ∧
      informed.Informed own peer := by
  obtain ⟨briefed, taken⟩ : ∃ briefed, own.receiveTips session peer.tips = .ok () briefed :=
    ⟨_, receiveTips_eq_ok.mpr ⟨untouched.idle, rfl⟩⟩
  obtain ⟨facts, phase, sentTips, receivedTips⟩ := untouched.receiveTips tracked taken
  have known := sentTips.trans sent
  obtain ⟨informed, answers⟩ :
      ∃ informed, own.receiveBooleans briefed (peer.tipBooleans own.tips) = .ok () informed :=
    ⟨_, receiveBooleans_eq_ok.mpr ⟨phase, own.tips, known, (List.length_map _).symm, rfl⟩⟩
  obtain ⟨-, sent', known', answered, ready⟩ :=
    receiveBooleans_answered (facts.workingTips ▸ tracked.nodup.filter _) answers
  obtain rfl := Option.some.inj (known.symm.trans known')
  refine ⟨briefed, informed, taken, ?_, answers, ready, briefed, facts, answered⟩
  simp only [sendBooleans, phase, receivedTips]

variable {caller listener : Replica ε}

theorem exchangeKnowledge_ok (ours : caller.Tracked) (theirs : listener.Tracked)
    (callerName listenerName : String) :
    ∃ own peer, exchangeKnowledge caller listener callerName listenerName = .ok (own, peer) ∧
      own.Informed caller listener ∧ peer.Informed listener caller := by
  obtain ⟨ownBriefed, own, ownTakes, ownAnswers, ownLearns, informed⟩ :=
    (Session.untouched_sent callerName listenerName .caller caller.tips).exists_informed ours
      listener rfl
  obtain ⟨peerBriefed, peer, peerTakes, peerAnswers, peerLearns, peerInformed⟩ :=
    (Session.untouched_sent listenerName callerName .listener listener.tips).exists_informed theirs
      caller rfl
  refine ⟨own, peer, ?_, informed, peerInformed⟩
  simp only [exchangeKnowledge, settlePhase, sendTips_start, ownTakes, peerTakes, ownAnswers,
    peerAnswers, ownLearns, peerLearns, bind, Except.bind, pure, Except.pure]

variable {events : Set ε}

theorem Session.Informed.workingTips_nodup {own peer : Replica ε} {session : Session ε}
    (informed : session.Informed own peer) (tracked : own.Tracked) : session.workingTips.Nodup := by
  obtain ⟨briefed, facts, answered⟩ := informed.learnt
  rw [answered.workingTips, facts.workingTips]
  exact (tracked.nodup.filter _).filter _

/-- The list for a peer completes what the own replica holds. -/
theorem Session.Informed.finish {own peer : Replica ε} {session : Session ε}
    (informed : session.Informed own peer) (history : IsHistory events)
    (ours : Coherent events own) (theirs : Coherent events peer) :
    ∃ sendList after, own.finish session = .ok sendList after ∧
      Completes own (redundant events own peer) sendList := by
  obtain ⟨briefed, facts, answered⟩ := informed.learnt
  have told {event : ε} (mem : event ∈ events) (held : hash event ∈ peer.graph) :
      event ∈ redundant events own peer := ⟨mem, .inl (.inl (theirs.holds_of_mem history mem held))⟩
  have pursues : Pursues events own (redundant events own peer) none briefed :=
    .of_briefed facts ours (fun mem low => ⟨mem, .inr low⟩)
      fun mem listed => told mem (theirs.mem_tips.mp listed).1
  have affirmed {event : ε} (mem : event ∈ events)
      (yes : (hash event, true) ∈ own.tips.zip (peer.tipBooleans own.tips)) :
      event ∈ redundant events own peer := by
    obtain ⟨-, child, recorded⟩ := mem_zip_tipBooleans.mp yes
    exact told mem recorded.mem
  exact (pursues.answered answered ours affirmed).finish history ours ours
    (theirs.spares_redundant history) (Int64.le_refl _) (fun held _ => held) informed.ready

section SameWatermark

variable {own peer : Replica ε} {sendList : List ε}

theorem covers_of_redundant (level : own.watermark = peer.watermark) :
    ∀ event ∈ redundant events own peer, peer.Covers event := by
  rintro event ⟨-, covered | low⟩
  · exact covered
  · exact .inr (level ▸ low)

/-- At one watermark the peer can take the list in order. -/
theorem Replica.Completes.deliverable_of_level
    (completes : Completes own (redundant events own peer) sendList) (history : IsHistory events)
    (ours : Coherent events own) (level : own.watermark = peer.watermark) :
    Deliverable events peer sendList :=
  completes.deliverable history ours (covers_of_redundant level) (Int64.le_of_eq level)

theorem Replica.Completes.events_addEvents
    (completes : Completes own (redundant events own peer) sendList) (history : IsHistory events)
    (ours : Coherent events own) (theirs : Coherent events peer)
    (level : own.watermark = peer.watermark) (swept : own.IsSwept) :
    (peer.addEvents sendList).2.events = own.events ∪ peer.events := by
  have deliverable := completes.deliverable_of_level history ours level
  have steps : Steps events peer (peer.addEvents sendList).2 := .addEvents deliverable.mem_events
  have after := steps.coherent theirs history
  ext event
  rw [Set.mem_union, mem_events_iff after.linked, mem_events_iff ours.linked,
    mem_events_iff theirs.linked]
  constructor
  · intro held
    rcases held.of_addEvents with earlier | listed
    · exact .inr earlier
    · exact .inl (completes.listed event listed)
  · rintro (held | held)
    · have covered := completes.covers_addEvents history ours theirs (covers_of_redundant level)
        (Int64.le_of_eq level) held
      apply swept.holds_of_covers ours.linked _ held covered
      rw [addEvents_watermark, level]
    · exact held.addEvents

end SameWatermark

theorem Session.Informed.finish_of_same_tips {own peer : Replica ε} {session : Session ε}
    (informed : session.Informed own peer) (tracked : own.Tracked)
    (same : ∀ tip, tip ∈ peer.tips ↔ tip ∈ own.tips) :
    ∃ after, own.finish session = .ok [] after := by
  obtain ⟨briefed, facts, answered⟩ := informed.learnt
  have unlisted : session.sendList = [] := by
    rw [answered.sendList, List.eq_nil_iff_forall_not_mem]
    intro event listed
    obtain ⟨-, -, tip, received, path⟩ := facts.mem_sendList.mp listed
    obtain ⟨child, recorded, -⟩ := Relation.TransGen.head'_iff.mp path
    exact (tracked.mem_tips.mp ((same tip).mp received)).2 child recorded
  have settled : session.workingTips = [] := by
    rw [answered.workingTips, facts.workingTips, List.filter_filter, List.filter_eq_nil_iff]
    intro tip mem
    have held := (tracked.mem_tips.mp mem).1
    have known := tracked.linked.settledBy_iff.mpr (.inl ⟨(same tip).mpr mem, held⟩)
    simp [known]
  obtain ⟨sendList, after, finished⟩ := own.exists_finish informed.ready
  have nothing : sendList = [] := by
    rw [List.eq_nil_iff_forall_not_mem]
    intro event
    rw [mem_of_finish finished, settled, List.foldl_nil, unlisted]
    exact List.not_mem_nil
  exact ⟨after, nothing ▸ finished⟩

theorem sendLists_ok (history : IsHistory events) (ours : Coherent events caller)
    (theirs : Coherent events listener) (callerName listenerName : String) :
    ∃ toListener toCaller, sendLists caller listener callerName listenerName =
        .ok (toListener, toCaller) ∧
      Completes caller (redundant events caller listener) toListener ∧
      Completes listener (redundant events listener caller) toCaller := by
  obtain ⟨own, peer, exchanged, informed, peerInformed⟩ :=
    exchangeKnowledge_ok ours.toTracked theirs.toTracked callerName listenerName
  obtain ⟨toListener, _, finished, completes⟩ := informed.finish history ours theirs
  obtain ⟨toCaller, _, peerFinished, peerCompletes⟩ := peerInformed.finish history theirs ours
  refine ⟨toListener, toCaller, ?_, completes, peerCompletes⟩
  simp only [sendLists, exchanged, finished, peerFinished, settlePhase, bind, Except.bind, pure,
    Except.pure]

theorem sendLists_of_same_tips (ours : caller.Tracked) (theirs : listener.Tracked)
    (same : ∀ tip, tip ∈ caller.tips ↔ tip ∈ listener.tips) (callerName listenerName : String) :
    sendLists caller listener callerName listenerName = .ok ([], []) := by
  obtain ⟨own, peer, exchanged, informed, peerInformed⟩ :=
    exchangeKnowledge_ok ours theirs callerName listenerName
  obtain ⟨_, finished⟩ := informed.finish_of_same_tips ours fun tip => (same tip).symm
  obtain ⟨_, peerFinished⟩ := peerInformed.finish_of_same_tips theirs same
  simp only [sendLists, exchanged, finished, peerFinished, settlePhase, bind, Except.bind, pure,
    Except.pure]

end Hashgraph
