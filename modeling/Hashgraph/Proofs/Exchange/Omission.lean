import Hashgraph.Proofs.Exchange.Forgetting

/-! When nothing is forgotten. Only the mark on a sent tip can get lost, and only if the tip was
extended before the peer's tips were taken: any other marked event settles the tips above it, so no
walk starts there. Over a history a session whose sent tips were still tips at that moment adds no
event that the peer was shown to have. -/

namespace Hashgraph

open DagEvent ShadowGraph Replica

variable {ε : Type} [DagEvent ε] {events : Set ε} {before after : Replica ε}

namespace Replica

theorem Step.holds_or_above (step : Step events before after) (coherent : Coherent events before)
    (history : IsHistory events) {event : ε} (held : after.Holds event) :
    before.Holds event ∨ before.watermark < generation event := by
  have swept {replica : Replica ε} (coherent : Coherent events replica)
      (held : replica.expire.2.Holds event) : replica.Holds event := by
    obtain ⟨pruned, -, -⟩ := coherent.toTracked.expire (coherent.falling history)
    exact (pruned.event?_eq_some.mp held).2
  cases step with
  | @add added offered =>
    by_cases insertable : before.classify added = .insertable
    · refine held.of_addEvent.imp_right ?_
      rintro rfl
      exact Int64.not_le.mp (classify_eq_insertable.mp insertable).2.1
    · rw [perform, addEvent_of_refused insertable] at held
      exact .inl held
  | expireTo raises =>
    simp only [perform, Replica.expireTo] at held
    split at held
    · exact .inl held
    · have kept := swept (coherent.setWatermark raises) held
      exact .inl kept
  | expire => exact .inl (swept coherent held)
  | setWatermark => exact .inl held

theorem Steps.holds_or_above (steps : Steps events before after)
    (coherent : Coherent events before) (history : IsHistory events) {event : ε}
    (held : after.Holds event) : before.Holds event ∨ before.watermark < generation event := by
  induction steps with
  | refl => exact .inl held
  | tail earlier step ih =>
    rcases step.holds_or_above (Steps.coherent earlier coherent history) history held with
      held | above
    · exact ih held
    · exact .inr (Int64.lt_of_le_of_lt (Steps.watermark_le earlier) above)

theorem Steps.isChild_of_selfParent (steps : Steps events before after)
    (coherent : Coherent events before) (history : IsHistory events) {child parent : EventHash}
    (held : child ∈ before.graph) (onChain : after.graph.SelfParent child parent) :
    before.graph.IsChild .self parent child := by
  have last := steps.coherent coherent history
  obtain ⟨parentHeld, event, found, names⟩ := onChain
  obtain ⟨earlier, foundBefore⟩ := mem_iff_event?.mp held
  have own := last.linked.hash_eq found
  obtain rfl : event = earlier :=
    coherent.eq_of_event? history (last.mem_events found) (own.symm ▸ foundBefore)
  refine coherent.records foundBefore names ?_
  obtain ⟨named, declared, rfl⟩ := names_iff.mp names
  rcases coherent.settles foundBefore .self named declared with parentBefore | expired
  · exact parentBefore
  · obtain ⟨older, foundOlder⟩ := mem_iff_event?.mp parentHeld
    obtain ⟨holds, same⟩ := (holds_iff last.linked).mp foundOlder
    rcases steps.holds_or_above coherent history holds with earlier | above
    · exact same ▸ earlier.mem
    · rw [history.declared (last.mem_events found) (last.mem_of_holds holds) declared same.symm]
        at expired
      exact (Int64.lt_irrefl (Int64.lt_of_lt_of_le above expired)).elim

/-- What is on the chain of an event that was held before is that event, or was extended before. -/
theorem Steps.extended_of_onChain (steps : Steps events before after)
    (coherent : Coherent events before) (history : IsHistory events) {tip hash : EventHash}
    (held : tip ∈ before.graph) (onChain : after.graph.OnChain (some tip) hash) :
    hash ∈ before.graph ∧
      (hash = tip ∨ Relation.TransGen (before.graph.IsChild .self) hash tip) := by
  obtain ⟨_, same, -, path⟩ := onChain
  cases same
  induction path with
  | refl => exact ⟨held, .inl rfl⟩
  | tail _ step ih =>
    obtain ⟨childHeld, above⟩ := ih
    have recorded := steps.isChild_of_selfParent coherent history childHeld step
    refine ⟨recorded.mem, .inr ?_⟩
    rcases above with rfl | strict
    · exact .single recorded
    · exact .head recorded strict

end Replica

namespace Encounter

variable {fresh : Replica ε} {d : Encounter ε} {localName peerName : String} {role : Role}

/-- If the sent tips that are held were still tips when the peer's were taken, no event is added in
the last phase that the peer was known to have. -/
theorem finish_omits_known (history : IsHistory events) (reached : Reached events fresh)
    (steps : Steps (Replica.Step events) (start fresh localName peerName role) d)
    (ready : d.session.phase = .booleansExchanged)
    (current : ∀ snapshot sent, d.snapshot = some snapshot → d.session.sentTips = some sent →
      ∀ tip ∈ sent, tip ∈ snapshot.graph → tip ∈ snapshot.tips) :
    ∃ sendList after, d.replica.finish d.session = .ok sendList after ∧
      ∀ event ∈ sendList, event ∉ d.session.sendList →
        ¬ d.replica.isKnownToPeer d.session (DagEvent.hash event) := by
  have coherent : ∀ state ∈ d.states, Coherent events state :=
    steps.forall_states (fun step coherent => coherent.step history step)
      (reached.coherent history)
  have linked := (coherent d.replica List.mem_cons_self).linked
  obtain ⟨snapshot, mem, taken, learnt⟩ :=
    steps.endures_ready endures_learnt (fun state mem => (coherent state mem).toTracked) ready
  refine ⟨_, _, finish_eq_ok.mpr ⟨ready, rfl, rfl⟩, fun event sent new known => ?_⟩
  obtain ⟨shown, path, marked⟩ := (isKnownToPeer_iff linked).mp known
  obtain ⟨earlier, tip, later, split, -, ⟨other, otherMem, onChain⟩, -⟩ :=
    forgotten_of_mem_walkFrom linked (List.mem_mergeSort.mp sent) new path marked
  have working : other ∈ d.session.workingTips := split ▸ List.mem_append_left _ otherMem
  cases learnt with
  | tips phase => cases phase.symm.trans ready
  | answers _ briefed sentTips answered =>
    rw [answered.workingTips, List.mem_filter, briefed.workingTips, List.mem_filter] at working
    obtain ⟨⟨isTip, unsettled⟩, unaffirmed⟩ := working
    rw [Bool.not_eq_true', ← Bool.not_eq_true] at unsettled unaffirmed
    have before := coherent snapshot mem
    have since : Replica.Steps events snapshot d.replica := steps.since taken
    obtain ⟨shownHeld, above⟩ :=
      since.extended_of_onChain before history (before.mem_tips.mp isTip).1 onChain
    rw [answered.marks] at marked
    split at marked
    · rename_i affirmed
      rcases above with rfl | extended
      · exact unaffirmed affirmed
      · have asked := (List.of_mem_zip (affirms_iff.mp affirmed).1).1
        have leaf := before.mem_tips.mp (current snapshot _ taken sentTips shown asked shownHeld)
        obtain ⟨child, recorded, -⟩ := Relation.TransGen.head'_iff.mp extended
        exact leaf.2 child recorded
    · rw [briefed.marks] at marked
      split at marked
      · rename_i named
        refine unsettled (before.linked.settledBy_iff.mpr ?_)
        rcases above with rfl | extended
        · exact .inl named
        · exact .inr ⟨shown, named.1, extended⟩
      · contradiction

def crossedAhead : Replica Outline := crossed.performAll ((crossedOutlines.drop 3).map .add)

/-- The second event is a tip when the peer's tips are taken, and has been extended when the peer
says that it has this event. The first event is known by it and is not sent. -/
theorem finish_omits_known_crossed : ∃ (d : Encounter Outline) (sendList : List Outline)
    (after : Session Outline),
    Steps (Replica.Step {event | event ∈ crossedOutlines}) (start crossedAhead "ann" "bob" .caller) d ∧
    d.session.phase = .booleansExchanged ∧ d.replica.tips = [.filled 4, .filled 3] ∧
    d.replica.finish d.session = .ok sendList after ∧
    d.replica.isKnownToPeer d.session (.filled 1) ∧ crossedOutline 0 ∉ sendList := by
  have add (place : Fin 4) (replica : Replica Outline) :
      Replica.Step {event | event ∈ crossedOutlines} replica
        (replica.perform (.add (crossedOutline place))) := .add (crossedOutline_mem place)
  have reached : Reached {event | event ∈ crossedOutlines} crossedAhead :=
    .step (.step (.step .empty (add 0 _)) (add 1 _)) (add 3 _)
  have coherent := (reached.step (add 2 _)).coherent isHistory_crossed
  have computed : crossedAhead.tips = [.filled 2, .filled 4] ∧
      (crossedAhead.perform (.add (crossedOutline 2))).tips = [.filled 4, .filled 3] ∧
      (crossedAhead.perform (.add (crossedOutline 2))).graph.event? (.filled 1) =
        some (crossedOutline 0) ∧
      (crossedAhead.perform (.add (crossedOutline 2))).graph.event? (.filled 2) =
        some (crossedOutline 1) := by decide +kernel
  obtain ⟨sentTips, tips, first, second⟩ := computed
  have fits : crossedAhead.tips.length = [true, false].length := by
    rw [sentTips]
    rfl
  obtain ⟨d, briefed, steps, ready, replica, snapshot, sent, listed, answered⟩ :=
    exists_ready "ann" "bob" .caller [] fits .refl (.single (add 2 _))
      (reached.coherent isHistory_crossed).toTracked
  obtain ⟨sendList, after, finished, omits⟩ := finish_omits_known isHistory_crossed reached steps
    ready fun earlier asked taken known tip mem _ => by
      obtain rfl := Option.some.inj (taken.symm.trans snapshot)
      obtain rfl := Option.some.inj (known.symm.trans sent)
      exact mem
  have linked := coherent.linked
  rw [← replica] at tips first second linked coherent
  have known : d.replica.isKnownToPeer d.session (.filled 1) := by
    have recorded : d.replica.graph.IsChild .other (.filled 1) (.filled 2) :=
      coherent.records second (by decide) (mem_of_event? first)
    refine (isKnownToPeer_iff linked).mpr ⟨.filled 2, .single ⟨.other, recorded⟩, ?_⟩
    rw [answered.marks, if_pos]
    rw [affirms_iff, sentTips, ← replica]
    exact ⟨List.mem_cons_self, mem_of_event? second⟩
  refine ⟨d, sendList, after, steps, ready, tips, finished, known, fun mem => ?_⟩
  refine omits _ mem ?_ known
  rw [answered.sendList, listed.sendList_eq_nil]
  exact List.not_mem_nil

end Encounter
end Hashgraph
