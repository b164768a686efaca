import Hashgraph.Proofs.Replica.Intake
import Hashgraph.Proofs.Replica.Sweep

/-! Replicas over runs. The commands of a caller change a replica; a run never lowers the watermark
except by clearing. The invariant comes in layers that ask more and more of the events: the tips
are the leaves, every missing parent is expired, and the links are exact. The exactness rests on
the second layer: a missing parent of a held event is expired, so it can never come in again. -/

namespace Hashgraph

open DagEvent ShadowGraph

variable {ε : Type} [DagEvent ε]

inductive Command (ε : Type) where
  | add (event : ε)
  | expireTo (watermark : Generation)
  | expire
  | setWatermark (watermark : Generation)
  | clear

namespace Replica

def perform (replica : Replica ε) : Command ε → Replica ε
  | .add event => (replica.addEvent event).2
  | .expireTo watermark => (replica.expireTo watermark).2
  | .expire => replica.expire.2
  | .setWatermark watermark => replica.setWatermark watermark
  | .clear => ∅

/-- One command that offers an event of the set or leaves the watermark no lower than it was. -/
inductive Step (events : Set ε) (replica : Replica ε) : Replica ε → Prop
  | add {event : ε} (offered : event ∈ events) : Step events replica (replica.perform (.add event))
  | expireTo {watermark : Generation} (raises : replica.watermark ≤ watermark) :
    Step events replica (replica.perform (.expireTo watermark))
  | expire : Step events replica (replica.perform .expire)
  | setWatermark {watermark : Generation} (raises : replica.watermark ≤ watermark) :
    Step events replica (replica.perform (.setWatermark watermark))

/-- What a run that starts with nothing reaches; clearing starts anew. -/
inductive Reached (events : Set ε) : Replica ε → Prop
  | empty : Reached events ∅
  | step {before after : Replica ε} (reached : Reached events before)
    (step : Step events before after) : Reached events after
  | clear {before : Replica ε} (reached : Reached events before) :
    Reached events (before.perform .clear)

def events (replica : Replica ε) : Set ε := {event | ∃ hash, replica.event? hash = some event}

/-- The invariant of runs over a history. -/
structure Coherent (events : Set ε) (replica : Replica ε) : Prop extends Tracked replica where
  mem_events : ∀ {hash : EventHash} {event : ε}, replica.graph.event? hash = some event →
    event ∈ events
  /-- Every held parent has recorded the events that name it. -/
  records : ∀ {line : Line} {parent child : EventHash} {event : ε},
    replica.graph.event? child = some event → Names line event parent → parent ∈ replica.graph →
    replica.graph.IsChild line parent child
  /-- Every parent is held or expired. -/
  settles : ∀ {hash : EventHash} {event : ε}, replica.graph.event? hash = some event →
    replica.Settles event

variable {events : Set ε} {replica : Replica ε}

@[simp] theorem expireTo_watermark {watermark : Generation} :
    (replica.expireTo watermark).2.watermark = watermark := by
  unfold Replica.expireTo
  split
  · exact Eq.symm ‹_›
  · rfl

theorem Tracked.empty : (∅ : Replica ε).Tracked where
  linked := .empty
  nodup := List.nodup_nil
  mem_tips := by
    refine iff_of_false List.not_mem_nil ?_
    rintro ⟨held, _⟩
    exact not_mem_empty _ held

/-- Intake keeps the tips right, for every event that does not name itself. -/
theorem Tracked.addEvent (tracked : replica.Tracked) {event : ε}
    (loopless : ¬ Names .self event (hash event)) : (replica.addEvent event).2.Tracked := by
  by_cases insertable : replica.classify event = .insertable
  · obtain ⟨graph, inserted, added⟩ := addEvent_of_insertable insertable
    rw [added]
    have absent := (classify_eq_insertable.mp insertable).1
    have fresh : hash event ∉ replica.tips := fun tip => absent (tracked.mem_tips.mp tip).1
    refine ⟨tracked.linked.insert inserted, nodup_tipsAfter tracked.nodup fresh, ?_⟩
    intro tip
    rw [mem_tipsAfter tracked.nodup fresh, tracked.mem_tips, IsLeaf, IsLeaf, mem_insert inserted]
    simp only [isChild_insert inserted, not_or, not_and]
    constructor
    · rintro ⟨⟨held, childless⟩ | rfl, unnamed⟩
      · exact ⟨.inr held, fun child => ⟨childless child, fun _ _ => unnamed⟩⟩
      · exact ⟨.inl rfl, fun child => ⟨fun recorded => absent recorded.mem, fun _ _ => unnamed⟩⟩
    · rintro ⟨rfl | held, childless⟩
      · exact ⟨.inr rfl, loopless⟩
      · exact ⟨.inl ⟨held, fun child => (childless child).1⟩,
          (childless (hash event)).2 held rfl⟩
  · rw [addEvent_of_refused insertable]
    exact tracked

/-- Every held event names only parents that are held or expired. -/
def IsSettled (replica : Replica ε) : Prop :=
  ∀ hash event, replica.graph.event? hash = some event → replica.Settles event

namespace IsSettled

theorem addEvent (settled : replica.IsSettled) (event : ε) :
    (replica.addEvent event).2.IsSettled := by
  by_cases insertable : replica.classify event = .insertable
  · obtain ⟨graph, inserted, added⟩ := addEvent_of_insertable insertable
    rw [added]
    intro child other held line descriptor named
    have earlier : replica.Settles other := by
      rw [event?_insert inserted] at held
      split at held
      · cases held
        exact (classify_eq_insertable.mp insertable).2.2
      · exact settled child other held
    exact (earlier line descriptor named).imp_left fun mem => (mem_insert inserted).mpr (.inr mem)
  · rw [addEvent_of_refused insertable]
    exact settled

theorem setWatermark (settled : replica.IsSettled) {watermark : Generation}
    (raises : replica.watermark ≤ watermark) : (replica.setWatermark watermark).IsSettled :=
  fun hash event held line descriptor named =>
    (settled hash event held line descriptor named).imp_right fun expired =>
      Int64.le_trans expired raises

/-- A sweep that removes what is expired settles the events whose parents it takes, unless one of
these declares its parent to be higher than it is. -/
theorem expire (settled : replica.IsSettled)
    (pruned : replica.graph.Pruned (replica.graph.expired replica.watermark) replica.expire.2.graph)
    (modest : ∀ {hash : EventHash} {event older : ε} {line : Line} {descriptor : Descriptor},
      replica.graph.event? hash = some event → parent line event = some descriptor →
      replica.graph.event? descriptor.hash = some older →
      descriptor.generation ≤ generation older) : replica.expire.2.IsSettled := by
  intro hash event held line descriptor named
  have earlier := (pruned.event?_eq_some.mp held).2
  rcases settled hash event earlier line descriptor named with parentHeld | expired
  · by_cases gone : descriptor.hash ∈ replica.graph.expired replica.watermark
    · obtain ⟨older, found⟩ := mem_iff_event?.mp parentHeld
      exact .inr (Int64.le_trans (modest earlier named found) ((mem_expired found).mp gone))
    · exact .inl (pruned.mem_iff.mpr ⟨gone, parentHeld⟩)
  · exact .inr expired

end IsSettled

/-- The tips are the leaves, and every held event is one of the set. -/
structure Gathered (events : Set ε) (replica : Replica ε) : Prop extends Tracked replica where
  mem_events : ∀ {hash : EventHash} {event : ε}, replica.graph.event? hash = some event →
    event ∈ events

namespace Gathered

theorem empty : Gathered events ∅ where
  toTracked := .empty
  mem_events held := by
    rw [show (∅ : Replica ε).graph = ∅ from rfl, event?_empty] at held
    contradiction

theorem falling (gathered : Gathered events replica) (ascending : IsAscending events) :
    replica.graph.Falling := by
  intro child parent event older held names found
  rw [← gathered.linked.hash_eq found] at names
  exact ascending (gathered.mem_events held) (gathered.mem_events found) names

theorem setWatermark (gathered : Gathered events replica) (watermark : Generation) :
    Gathered events (replica.setWatermark watermark) where
  linked := gathered.linked
  nodup := gathered.nodup
  mem_tips := gathered.mem_tips
  mem_events := gathered.mem_events

theorem addEvent (gathered : Gathered events replica) (ascending : IsAscending events) {event : ε}
    (offered : event ∈ events) : Gathered events (replica.addEvent event).2 where
  toTracked := gathered.toTracked.addEvent fun names =>
    Int64.lt_irrefl (ascending offered offered names)
  mem_events := by
    intro other held found
    by_cases insertable : replica.classify event = .insertable
    · obtain ⟨graph, inserted, added⟩ := addEvent_of_insertable insertable
      rw [added, event?_insert inserted] at found
      split at found
      · cases found
        exact offered
      · exact gathered.mem_events found
    · rw [addEvent_of_refused insertable] at found
      exact gathered.mem_events found

theorem expire (gathered : Gathered events replica) (ascending : IsAscending events) :
    Gathered events replica.expire.2 := by
  have falling : replica.graph.Falling := gathered.falling ascending
  obtain ⟨pruned, -, -⟩ := gathered.toTracked.expire falling
  refine ⟨gathered.toTracked.expire_tracked falling, ?_⟩
  intro hash event held
  exact gathered.mem_events (pruned.event?_eq_some.mp held).2

theorem expireTo (gathered : Gathered events replica) (ascending : IsAscending events)
    (watermark : Generation) : Gathered events (replica.expireTo watermark).2 := by
  unfold Replica.expireTo
  split
  · exact gathered
  · exact (gathered.setWatermark watermark).expire ascending

end Gathered

/-- Moreover, every held event names only parents that are held or expired. -/
structure Settled (events : Set ε) (replica : Replica ε) : Prop
    extends Gathered events replica where
  isSettled : replica.IsSettled

namespace Settled

theorem empty : Settled events ∅ where
  toGathered := .empty
  isSettled hash event held := by
    rw [show (∅ : Replica ε).graph = ∅ from rfl, event?_empty] at held
    contradiction

theorem addEvent (settled : Settled events replica) (ascending : IsAscending events) {event : ε}
    (offered : event ∈ events) : Settled events (replica.addEvent event).2 :=
  ⟨settled.toGathered.addEvent ascending offered, settled.isSettled.addEvent event⟩

theorem setWatermark (settled : Settled events replica) {watermark : Generation}
    (raises : replica.watermark ≤ watermark) : Settled events (replica.setWatermark watermark) :=
  ⟨settled.toGathered.setWatermark watermark, settled.isSettled.setWatermark raises⟩

theorem expire (settled : Settled events replica) (ascending : IsAscending events)
    (modest : IsModest events) : Settled events replica.expire.2 := by
  obtain ⟨pruned, -, -⟩ := settled.toTracked.expire (settled.falling ascending)
  refine ⟨settled.toGathered.expire ascending, settled.isSettled.expire pruned ?_⟩
  intro hash event older line descriptor held named found
  exact modest (settled.mem_events held) (settled.mem_events found) named
    (settled.linked.hash_eq found).symm

theorem expireTo (settled : Settled events replica) (ascending : IsAscending events)
    (modest : IsModest events) {watermark : Generation} (raises : replica.watermark ≤ watermark) :
    Settled events (replica.expireTo watermark).2 := by
  unfold Replica.expireTo
  split
  · exact settled
  · exact (settled.setWatermark raises).expire ascending modest

end Settled

namespace Coherent

theorem of_settled (settled : Settled events replica)
    (records : ∀ {line : Line} {parent child : EventHash} {event : ε},
      replica.graph.event? child = some event → Names line event parent → parent ∈ replica.graph →
      replica.graph.IsChild line parent child) : Coherent events replica where
  toTracked := settled.toTracked
  mem_events := settled.mem_events
  records := records
  settles held := settled.isSettled _ _ held

theorem settled (coherent : Coherent events replica) : Settled events replica where
  toTracked := coherent.toTracked
  mem_events := coherent.mem_events
  isSettled _ _ held := coherent.settles held

theorem empty : Coherent events ∅ :=
  of_settled .empty fun _ _ held => (not_mem_empty _ held).elim

theorem falling (coherent : Coherent events replica) (history : IsHistory events) :
    replica.graph.Falling := coherent.settled.falling history.isAscending

/-- The links are exact. -/
theorem isChild_iff (coherent : Coherent events replica) {line : Line}
    {parent child : EventHash} (held : parent ∈ replica.graph) :
    replica.graph.IsChild line parent child ↔
      ∃ event, replica.graph.event? child = some event ∧ Names line event parent := by
  constructor
  · exact coherent.linked.child_names
  · rintro ⟨event, found, names⟩
    exact coherent.records found names held

theorem addEvent (coherent : Coherent events replica) (history : IsHistory events) {event : ε}
    (offered : event ∈ events) : Coherent events (replica.addEvent event).2 := by
  have settled := coherent.settled.addEvent history.isAscending offered
  by_cases insertable : replica.classify event = .insertable
  · obtain ⟨absent, unexpired, -⟩ := classify_eq_insertable.mp insertable
    obtain ⟨graph, inserted, added⟩ := addEvent_of_insertable insertable
    rw [added] at settled ⊢
    have cases {child : EventHash} {other : ε} (held : graph.event? child = some other) :
        other = event ∨ replica.graph.event? child = some other := by
      rw [event?_insert inserted] at held
      split at held
      · exact .inl (Option.some.inj held).symm
      · exact .inr held
    refine of_settled settled fun {line parent child other} held names parentHeld => ?_
    rw [isChild_insert inserted]
    rcases (mem_insert inserted).mp parentHeld with rfl | earlier
    · -- a held event that named the new one would have found it missing and expired
      exfalso
      rcases cases held with rfl | held
      · exact Int64.lt_irrefl (history.lt_of_names offered offered names)
      · obtain ⟨descriptor, named, same⟩ := names_iff.mp names
        rcases coherent.settles held line descriptor named with earlier | expired
        · exact absent (same ▸ earlier)
        · rw [history.declared (coherent.mem_events held) offered named same] at expired
          exact unexpired expired
    · rcases cases held with rfl | held
      · have own := settled.linked.hash_eq held
        exact .inr ⟨earlier, own.symm, names⟩
      · exact .inl (coherent.records held names earlier)
  · rw [addEvent_of_refused insertable]
    exact coherent

theorem setWatermark (coherent : Coherent events replica) {watermark : Generation}
    (raises : replica.watermark ≤ watermark) :
    Coherent events (replica.setWatermark watermark) :=
  of_settled (coherent.settled.setWatermark raises) coherent.records

theorem expire (coherent : Coherent events replica) (history : IsHistory events) :
    Coherent events replica.expire.2 := by
  obtain ⟨pruned, -, -⟩ := coherent.toTracked.expire (coherent.falling history)
  have settled := coherent.settled.expire history.isAscending history.isModest
  refine of_settled settled fun {line parent child event} held names parentHeld => ?_
  obtain ⟨childKept, childHeld⟩ := pruned.event?_eq_some.mp held
  obtain ⟨parentKept, parentHeld⟩ := pruned.mem_iff.mp parentHeld
  exact pruned.isChild_iff.mpr
    ⟨parentKept, childKept, coherent.records childHeld names parentHeld⟩

theorem expireTo (coherent : Coherent events replica) (history : IsHistory events)
    {watermark : Generation} (raises : replica.watermark ≤ watermark) :
    Coherent events (replica.expireTo watermark).2 := by
  unfold Replica.expireTo
  split
  · exact coherent
  · exact (coherent.setWatermark raises).expire history

theorem step {after : Replica ε} (coherent : Coherent events replica) (history : IsHistory events)
    (step : Step events replica after) : Coherent events after := by
  cases step with
  | add offered => exact coherent.addEvent history offered
  | expireTo raises => exact coherent.expireTo history raises
  | expire => exact coherent.expire history
  | setWatermark raises => exact coherent.setWatermark raises

end Coherent

theorem Reached.coherent (reached : Reached events replica) (history : IsHistory events) :
    Coherent events replica := by
  induction reached with
  | empty => exact .empty
  | step _ step ih => exact ih.step history step
  | clear => exact .empty

end Replica
end Hashgraph
