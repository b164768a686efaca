import Hashgraph.Proofs.Replica.Agreement
import Hashgraph.Proofs.Replica.Delivery
import Hashgraph.Proofs.Replica.Filter
import Hashgraph.Proofs.Replica.Order

/-! Intake and sweeps commute. An event that a sweep would take is refused once the sweep is over,
and an event that finds its parent swept takes this parent for expired. Either way the same events
are held in the end, and the events settle the links; the tips stand in the order of acceptance,
from which a sweep only takes away. -/

namespace Hashgraph

open DagEvent ShadowGraph

theorem eq_of_sublist_of_mem_iff {α : Type} [DecidableEq α] {whole first second : List α}
    (nodup : whole.Nodup) (firstPart : first.Sublist whole) (secondPart : second.Sublist whole)
    (same : ∀ item, item ∈ first ↔ item ∈ second) : first = second := by
  have selected {part whole : List α} (nodup : whole.Nodup) (sub : part.Sublist whole) :
      whole.filter (fun item => item ∈ part) = part := by
    induction sub with
    | slnil => rfl
    | cons item sub ih =>
      obtain ⟨fresh, nodup⟩ := List.nodup_cons.mp nodup
      rw [List.filter_cons_of_neg, ih nodup]
      simpa using fun mem => fresh (sub.subset mem)
    | cons_cons item sub ih =>
      obtain ⟨fresh, nodup⟩ := List.nodup_cons.mp nodup
      rw [List.filter_cons_of_pos (by simp), List.cons_inj_right]
      refine (List.filter_congr fun other mem => ?_).trans (ih nodup)
      have differs : other ≠ item := fun equal => fresh (equal ▸ mem)
      simp [differs]
  rw [← selected nodup firstPart, ← selected nodup secondPart]
  exact List.filter_congr fun item _ => decide_eq_decide.mpr (same item)

variable {ε : Type} [DagEvent ε] {events : Set ε} {replica : Replica ε} {event other : ε}
  {watermark : Generation}

namespace Replica

theorem classify_of_expired (absent : hash event ∉ replica.graph)
    (expired : generation event ≤ replica.watermark) : replica.classify event = .expired := by
  have unheld : ¬ replica.graph.contains (hash event) = true := absent
  rw [classify, if_neg unheld, isExpired, if_pos (decide_eq_true expired)]

theorem holds_addEvent_iff (insertable : replica.classify event = .insertable) :
    (replica.addEvent event).2.Holds other ↔ replica.Holds other ∨ other = event := by
  constructor
  · exact Holds.of_addEvent
  · rintro (held | rfl)
    · exact held.addEvent
    · obtain ⟨graph, inserted, added⟩ := addEvent_of_insertable insertable
      rw [added]
      exact (event?_insert inserted _).trans (if_pos rfl)

theorem addEvent_tips_sublist (fresh : hash event ∉ replica.tips) :
    (replica.addEvent event).2.tips.Sublist (replica.tips ++ [hash event]) := by
  by_cases insertable : replica.classify event = .insertable
  · obtain ⟨graph, inserted, added⟩ := addEvent_of_insertable insertable
    rw [added]
    exact tipsAfter_sublist fresh
  · rw [addEvent_of_refused insertable]
    exact List.sublist_append_left _ _

theorem expireTo_of_standing (stands : watermark = replica.watermark) :
    replica.expireTo watermark = (0, replica) := if_pos stands

theorem expireTo_tips_sublist : (replica.expireTo watermark).2.tips.Sublist replica.tips := by
  unfold expireTo
  split
  · exact .refl _
  · exact expire_tips_sublist

namespace Coherent

theorem holds_expireTo_iff (coherent : Coherent events replica) (history : IsHistory events)
    (moves : watermark ≠ replica.watermark) :
    (replica.expireTo watermark).2.Holds other ↔
      replica.Holds other ∧ ¬ generation other ≤ watermark := by
  have sifted := coherent.settled.toGathered.expireTo_sifted history.isAscending moves
  rw [Holds, sifted.event?_eq, Option.filter_eq_some_iff, decide_eq_true_iff, Int64.not_le, Holds]

theorem mem_of_mem_expireTo (coherent : Coherent events replica) (history : IsHistory events)
    {hash : EventHash} (moves : watermark ≠ replica.watermark)
    (held : hash ∈ (replica.expireTo watermark).2.graph) : hash ∈ replica.graph := by
  have sifted := coherent.settled.toGathered.expireTo_sifted history.isAscending moves
  obtain ⟨event, found⟩ := mem_iff_event?.mp held
  rw [sifted.event?_eq, Option.filter_eq_some_iff] at found
  exact mem_of_event? found.1

/-- A parent that an event found held is held or expired after the sweep. -/
theorem settles_expireTo (coherent : Coherent events replica) (history : IsHistory events)
    (offered : event ∈ events) (moves : watermark ≠ replica.watermark)
    (raises : replica.watermark ≤ watermark) (settles : replica.Settles event) :
    (replica.expireTo watermark).2.Settles event := by
  intro line descriptor named
  rw [expireTo_watermark]
  rcases settles line descriptor named with held | expired
  · obtain ⟨older, found⟩ := mem_iff_event?.mp held
    obtain ⟨olderHeld, same⟩ := (holds_iff coherent.linked).mp found
    by_cases low : generation older ≤ watermark
    · have declared := history.declared offered (coherent.mem_of_holds olderHeld) named same.symm
      exact .inr (declared ▸ low)
    · have kept := (coherent.holds_expireTo_iff history moves).mpr ⟨olderHeld, low⟩
      exact .inl (same ▸ kept.mem)
  · exact .inr (Int64.le_trans expired raises)

/-- What intake says after the sweep of an event that it would accept before. -/
theorem classify_expireTo (coherent : Coherent events replica) (history : IsHistory events)
    (offered : event ∈ events) (raises : replica.watermark ≤ watermark)
    (insertable : replica.classify event = .insertable) :
    (replica.expireTo watermark).2.classify event =
      if generation event ≤ watermark then .expired else .insertable := by
  obtain ⟨absent, unexpired, settles⟩ := classify_eq_insertable.mp insertable
  by_cases moves : watermark = replica.watermark
  · rw [expireTo_of_standing moves, insertable, moves, if_neg unexpired]
  · have gone : hash event ∉ (replica.expireTo watermark).2.graph :=
      fun held => absent (coherent.mem_of_mem_expireTo history moves held)
    split
    · rename_i low
      apply classify_of_expired gone
      rwa [expireTo_watermark]
    · rename_i high
      rw [classify_eq_insertable, expireTo_watermark]
      exact ⟨gone, high, coherent.settles_expireTo history offered moves raises settles⟩

/-- After intake and sweep, in either order, the same events are held. -/
theorem events_expireTo_addEvent (coherent : Coherent events replica) (history : IsHistory events)
    (offered : event ∈ events) (moves : watermark ≠ replica.watermark)
    (raises : replica.watermark ≤ watermark) (insertable : replica.classify event = .insertable) :
    ((replica.addEvent event).2.expireTo watermark).2.events =
      ((replica.expireTo watermark).2.addEvent event).2.events := by
  have added := coherent.addEvent history offered
  have swept := coherent.expireTo history raises
  have raisesLater : (replica.addEvent event).2.watermark ≤ watermark := by rwa [addEvent_watermark]
  have verdict := coherent.classify_expireTo history offered raises insertable
  ext other
  rw [mem_events_iff (added.expireTo history raisesLater).linked,
    mem_events_iff (swept.addEvent history offered).linked,
    added.holds_expireTo_iff history (by rwa [addEvent_watermark]), holds_addEvent_iff insertable]
  by_cases low : generation event ≤ watermark
  · rw [if_pos low] at verdict
    rw [addEvent_of_refused (by simp [verdict]), coherent.holds_expireTo_iff history moves]
    constructor
    · rintro ⟨held | rfl, high⟩
      · exact ⟨held, high⟩
      · contradiction
    · rintro ⟨held, high⟩
      exact ⟨.inl held, high⟩
  · rw [if_neg low] at verdict
    rw [holds_addEvent_iff verdict, coherent.holds_expireTo_iff history moves]
    constructor
    · rintro ⟨held | rfl, high⟩
      · exact .inl ⟨held, high⟩
      · exact .inr rfl
    · rintro (⟨held, high⟩ | rfl)
      · exact ⟨.inl held, high⟩
      · exact ⟨.inr rfl, low⟩

theorem expireTo_addEvent (coherent : Coherent events replica) (history : IsHistory events)
    (offered : event ∈ events) (raises : replica.watermark ≤ watermark)
    (insertable : replica.classify event = .insertable) :
    ((replica.addEvent event).2.expireTo watermark).2 =
      ((replica.expireTo watermark).2.addEvent event).2 := by
  by_cases moves : watermark = replica.watermark
  · have stands : watermark = (replica.addEvent event).2.watermark := by rwa [addEvent_watermark]
    rw [expireTo_of_standing moves, expireTo_of_standing stands]
  · have sweptLast : Coherent events ((replica.addEvent event).2.expireTo watermark).2 :=
      (coherent.addEvent history offered).expireTo history (by rwa [addEvent_watermark])
    have sweptFirst : Coherent events ((replica.expireTo watermark).2.addEvent event).2 :=
      (coherent.expireTo history raises).addEvent history offered
    have sameGraph := sweptLast.graph_eq_of_events sweptFirst
      (coherent.events_expireTo_addEvent history offered moves raises insertable)
    have fresh : hash event ∉ replica.tips := fun tip =>
      (classify_eq_insertable.mp insertable).1 (coherent.mem_tips.mp tip).1
    have sameTips : ((replica.addEvent event).2.expireTo watermark).2.tips =
        ((replica.expireTo watermark).2.addEvent event).2.tips := by
      have nodup : (replica.tips ++ [hash event]).Nodup :=
        addTip_of_not_mem fresh ▸ nodup_addTip coherent.nodup fresh
      have freshLater : hash event ∉ (replica.expireTo watermark).2.tips :=
        fun tip => fresh (expireTo_tips_sublist.subset tip)
      apply eq_of_sublist_of_mem_iff nodup
      · exact expireTo_tips_sublist.trans (addEvent_tips_sublist fresh)
      · exact (addEvent_tips_sublist freshLater).trans (expireTo_tips_sublist.append (.refl _))
      · exact sweptLast.toTracked.mem_tips_iff_of_graph sweptFirst.toTracked sameGraph
    have sameWatermark : ((replica.addEvent event).2.expireTo watermark).2.watermark =
        ((replica.expireTo watermark).2.addEvent event).2.watermark := by
      rw [expireTo_watermark, addEvent_watermark, expireTo_watermark]
    exact congr (congr (congrArg Replica.mk sameGraph) sameTips) sameWatermark

theorem expireTo_addEvents (coherent : Coherent events replica) (history : IsHistory events)
    (raises : replica.watermark ≤ watermark) {offered : List ε}
    (mem : ∀ event ∈ offered, event ∈ events)
    (accepted : ∀ status ∈ (replica.addEvents offered).1, status = .insertable) :
    ((replica.addEvents offered).2.expireTo watermark).2 =
        ((replica.expireTo watermark).2.addEvents offered).2 ∧
      ((replica.expireTo watermark).2.addEvents offered).1 = offered.map fun event =>
        if generation event ≤ watermark then .expired else .insertable := by
  induction offered generalizing replica with
  | nil => exact ⟨rfl, rfl⟩
  | cons event rest ih =>
    obtain ⟨offered, others⟩ := List.forall_mem_cons.mp mem
    rw [addEvents_cons, List.forall_mem_cons, addEvent_fst] at accepted
    obtain ⟨insertable, later⟩ := accepted
    have commutes := coherent.expireTo_addEvent history offered raises insertable
    have raisesLater : (replica.addEvent event).2.watermark ≤ watermark := by
      rwa [addEvent_watermark]
    obtain ⟨same, statuses⟩ := ih (coherent.addEvent history offered) raisesLater others later
    rw [commutes] at same statuses
    refine ⟨same, ?_⟩
    rw [addEvents_cons, List.map_cons, statuses, addEvent_fst,
      coherent.classify_expireTo history offered raises insertable]

end Coherent

/-- Taking a list in and sweeping, or sweeping and offering the list: the outcome is the same, and
after the sweep those events are turned away that it would have taken. -/
theorem addEvents_expireTo_comm (history : IsHistory events) (reached : Reached events replica)
    (raises : replica.watermark ≤ watermark) {offered : List ε}
    (mem : ∀ event ∈ offered, event ∈ events)
    (accepted : ∀ status ∈ (replica.addEvents offered).1, status = .insertable) :
    ((replica.addEvents offered).2.expireTo watermark).2 =
        ((replica.expireTo watermark).2.addEvents offered).2 ∧
      ((replica.expireTo watermark).2.addEvents offered).1 =
        offered.map fun event => if generation event ≤ watermark then .expired else .insertable :=
  (reached.coherent history).expireTo_addEvents history raises mem accepted

/-- The sweep takes the event at which a chain forks, with both branches still to come. -/
theorem addEvents_expireTo_comm_forked :
    let replica : Replica Outline := ((∅ : Replica Outline).addEvents [forkedOutline 0]).2
    let offered := [forkedOutline 3, forkedOutline 1, forkedOutline 2]
    (replica.addEvents offered).1 = [.insertable, .insertable, .insertable] ∧
      ((replica.addEvents offered).2.expireTo 0).2 = ((replica.expireTo 0).2.addEvents offered).2 ∧
      ((replica.expireTo 0).2.addEvents offered).1 = [.insertable, .expired, .insertable] := by
  intro replica offered
  have history : IsHistory {event | event ∈ forkedOutlines} := by decide +kernel
  have mem : ∀ event ∈ offered, event ∈ {event | event ∈ forkedOutlines} :=
    (List.forall_mem_map (l := [3, 1, 2])).mpr fun place _ => forkedOutline_mem place
  have reached : Reached {event | event ∈ forkedOutlines} replica :=
    Steps.reached (Steps.addEvents (List.forall_mem_singleton.mpr (forkedOutline_mem 0))) .empty
  have raises : replica.watermark ≤ 0 := by
    rw [show replica.watermark = Generation.nothingExpired from addEvents_watermark]
    decide
  have statuses : (replica.addEvents offered).1 = [.insertable, .insertable, .insertable] := by
    decide +kernel
  have accepted : ∀ status ∈ (replica.addEvents offered).1, status = .insertable := by
    rw [statuses]
    decide
  obtain ⟨same, later⟩ := addEvents_expireTo_comm history reached raises mem accepted
  exact ⟨statuses, same, later.trans (by decide +kernel)⟩

end Replica
end Hashgraph
