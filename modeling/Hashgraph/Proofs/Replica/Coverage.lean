import Mathlib.Logic.Relation
import Hashgraph.Proofs.Replica.Coherence

/-! Coverage. A replica covers the events that it holds and those that its watermark expires. What
is covered stays covered whatever the replica goes through, and with an event its ancestors are
covered. This is what a member can rely on that hears of another's replica only now and then. -/

namespace Hashgraph.Replica

open DagEvent ShadowGraph

variable {ε : Type} [DagEvent ε] {events : Set ε} {replica before after : Replica ε}

def Holds (replica : Replica ε) (event : ε) : Prop :=
  replica.graph.event? (hash event) = some event

def Covers (replica : Replica ε) (event : ε) : Prop :=
  replica.Holds event ∨ generation event ≤ replica.watermark

abbrev Steps (events : Set ε) : Replica ε → Replica ε → Prop := Relation.ReflTransGen (Step events)

/-- No held event is expired. -/
def IsSwept (replica : Replica ε) : Prop :=
  ∀ event ∈ replica.events, replica.watermark < generation event

theorem Holds.mem {event : ε} (held : replica.Holds event) : hash event ∈ replica.graph :=
  mem_of_event? held

theorem holds_iff (linked : replica.graph.Linked) {other : EventHash} {event : ε} :
    replica.graph.event? other = some event ↔ replica.Holds event ∧ hash event = other := by
  constructor
  · intro held
    have own := linked.hash_eq held
    rw [Holds, own]
    exact ⟨held, rfl⟩
  · rintro ⟨held, rfl⟩
    exact held

theorem mem_events_iff (linked : replica.graph.Linked) {event : ε} :
    event ∈ replica.events ↔ replica.Holds event := by
  constructor
  · rintro ⟨other, held⟩
    exact ((holds_iff linked).mp held).1
  · exact fun held => ⟨hash event, held⟩

theorem exists_child (linked : replica.graph.Linked) {line : Line} {parent child : EventHash}
    (recorded : replica.graph.IsChild line parent child) :
    ∃ younger, replica.Holds younger ∧ hash younger = child ∧ Names line younger parent := by
  obtain ⟨younger, found, names⟩ := linked.child_names recorded
  obtain ⟨held, own⟩ := (holds_iff linked).mp found
  exact ⟨younger, held, own, names⟩

/-- What a replica holds is above the watermark that it has in common with another one, so the
other one can cover it in no way but by holding it. -/
theorem IsSwept.holds_of_covers {other : Replica ε} (swept : replica.IsSwept)
    (linked : replica.graph.Linked) (level : replica.watermark = other.watermark) {event : ε}
    (held : replica.Holds event) (covered : other.Covers event) : other.Holds event := by
  apply covered.resolve_right
  intro expired
  have above := swept event ((mem_events_iff linked).mpr held)
  rw [level] at above
  exact Int64.lt_irrefl (Int64.lt_of_lt_of_le above expired)

theorem IsSwept.empty : (∅ : Replica ε).IsSwept := by
  rintro event ⟨hash, found⟩
  have absent : (∅ : ShadowGraph ε).event? hash = some event := found
  rw [event?_empty] at absent
  contradiction

/-- Intake lets nothing in that is expired. -/
theorem IsSwept.addEvent (swept : replica.IsSwept) (added : ε) :
    (replica.addEvent added).2.IsSwept := by
  by_cases insertable : replica.classify added = .insertable
  · obtain ⟨graph, inserted, result⟩ := addEvent_of_insertable insertable
    rw [result]
    rintro event ⟨other, held⟩
    have found := (event?_insert inserted other).symm.trans held
    split at found
    · cases found
      exact Int64.not_le.mp (classify_eq_insertable.mp insertable).2.1
    · exact swept event ⟨other, found⟩
  · rw [addEvent_of_refused insertable]
    exact swept

theorem Tracked.isSwept_expire (tracked : replica.Tracked) (falling : replica.graph.Falling) :
    replica.expire.2.IsSwept := by
  obtain ⟨pruned, -, -⟩ := tracked.expire falling
  rintro event ⟨hash, held⟩
  obtain ⟨kept, found⟩ := pruned.event?_eq_some.mp held
  rw [mem_expired found] at kept
  exact Int64.not_le.mp kept

theorem Holds.addEvent {event added : ε} (held : replica.Holds event) :
    (replica.addEvent added).2.Holds event := by
  by_cases insertable : replica.classify added = .insertable
  · obtain ⟨graph, inserted, result⟩ := addEvent_of_insertable insertable
    rw [result]
    refine (event?_insert inserted _).trans ?_
    rw [if_neg, held]
    intro same
    exact not_mem_of_insert inserted (same ▸ held.mem)
  · rw [addEvent_of_refused insertable]
    exact held

theorem Holds.of_addEvent {event added : ε} (held : (replica.addEvent added).2.Holds event) :
    replica.Holds event ∨ event = added := by
  by_cases insertable : replica.classify added = .insertable
  · obtain ⟨graph, inserted, result⟩ := addEvent_of_insertable insertable
    rw [result] at held
    have found := (event?_insert inserted _).symm.trans held
    split at found
    · exact .inr (Option.some.inj found).symm
    · exact .inl found
  · rw [addEvent_of_refused insertable] at held
    exact .inl held

/-- A sweep leaves nothing expired, and where none takes place nothing was expired before. -/
theorem Gathered.isSwept_expireTo (gathered : Gathered events replica)
    (ascending : IsAscending events) (swept : replica.IsSwept) (watermark : Generation) :
    (replica.expireTo watermark).2.IsSwept := by
  unfold Replica.expireTo
  split
  · exact swept
  · have falling : (replica.setWatermark watermark).graph.Falling := gathered.falling ascending
    exact (gathered.setWatermark watermark).toTracked.isSwept_expire falling

namespace Coherent

/-- What is held at the hash of an event of the history is that event. -/
theorem eq_of_event? (coherent : Coherent events replica) (history : IsHistory events)
    {event other : ε} (mem : event ∈ events)
    (found : replica.graph.event? (hash event) = some other) : event = other :=
  history.hash_inj mem (coherent.mem_events found) (coherent.linked.hash_eq found).symm

theorem holds_of_mem (coherent : Coherent events replica) (history : IsHistory events) {event : ε}
    (mem : event ∈ events) (held : hash event ∈ replica.graph) : replica.Holds event := by
  obtain ⟨other, found⟩ := mem_iff_event?.mp held
  rw [Holds, found, coherent.eq_of_event? history mem found]

theorem events_subset (coherent : Coherent events replica) : replica.events ⊆ events := by
  rintro event ⟨hash, held⟩
  exact coherent.mem_events held

theorem mem_of_holds (coherent : Coherent events replica) {event : ε} (held : replica.Holds event) :
    event ∈ events := coherent.mem_events held

/-- A parent that an event names is covered if the event is. -/
theorem covers_parent (coherent : Coherent events replica) (history : IsHistory events)
    {line : Line} {child older : ε} (childMem : child ∈ events) (olderMem : older ∈ events)
    (names : Names line child (hash older)) (covered : replica.Covers child) :
    replica.Covers older := by
  obtain ⟨descriptor, named, same⟩ := names_iff.mp names
  rcases covered with held | expired
  · rcases coherent.settles held line descriptor named with parentHeld | parentExpired
    · exact .inl (coherent.holds_of_mem history olderMem (same ▸ parentHeld))
    · exact .inr (history.declared childMem olderMem named same ▸ parentExpired)
  · exact .inr (Int64.le_trans (Int64.le_of_lt (history.lt_of_names childMem olderMem names)) expired)

theorem isSwept_expireTo (coherent : Coherent events replica) (history : IsHistory events)
    (swept : replica.IsSwept) (watermark : Generation) :
    (replica.expireTo watermark).2.IsSwept :=
  coherent.settled.toGathered.isSwept_expireTo history.isAscending swept watermark

/-- The tips are the hashes of the held events that no held event extends. -/
theorem mem_tips_iff (coherent : Coherent events replica) {tip : EventHash} :
    tip ∈ replica.tips ↔ (∃ event ∈ replica.events, hash event = tip) ∧
      ∀ event ∈ replica.events, ¬ Names .self event tip := by
  rw [coherent.mem_tips, IsLeaf, mem_iff_event?]
  simp only [holds_iff coherent.linked, ← mem_events_iff coherent.linked]
  refine and_congr_right ?_
  rintro ⟨top, held, rfl⟩
  have topHeld := ((mem_events_iff coherent.linked).mp held).mem
  constructor
  · intro childless event mem names
    have childHeld := (mem_events_iff coherent.linked).mp mem
    exact childless _ (coherent.records childHeld names topHeld)
  · intro unnamed child recorded
    obtain ⟨event, found, names⟩ := coherent.linked.child_names recorded
    exact unnamed event ⟨child, found⟩ names

/-- A held self-child is a recorded one. -/
theorem selfParent_iff (coherent : Coherent events replica) {child parent : EventHash} :
    replica.graph.SelfParent child parent ↔ replica.graph.IsChild .self parent child := by
  constructor
  · rintro ⟨parentHeld, event, held, names⟩
    exact coherent.records held names parentHeld
  · intro recorded
    exact ⟨recorded.mem, coherent.linked.child_names recorded⟩

end Coherent

namespace Step

theorem watermark_le (step : Step events before after) : before.watermark ≤ after.watermark := by
  cases step with
  | add => simp [perform]
  | expireTo raises => simpa [perform] using raises
  | expire => exact Int64.le_refl _
  | setWatermark raises => exact raises

/-- A sweep keeps what it does not expire. -/
theorem holds_expire (coherent : Coherent events replica) (history : IsHistory events) {event : ε}
    (held : replica.Holds event) (unexpired : ¬ generation event ≤ replica.watermark) :
    replica.expire.2.Holds event := by
  obtain ⟨pruned, -, -⟩ := coherent.toTracked.expire (coherent.falling history)
  rw [← mem_expired held] at unexpired
  exact (pruned.event?_kept unexpired).trans held

theorem holds (step : Step events before after) (coherent : Coherent events before)
    (history : IsHistory events) {event : ε} (held : before.Holds event)
    (unexpired : ¬ generation event ≤ after.watermark) : after.Holds event := by
  cases step with
  | add => exact held.addEvent
  | expireTo raises =>
    simp only [perform, Replica.expireTo] at unexpired ⊢
    split
    · exact held
    · rename_i other
      rw [if_neg other] at unexpired
      exact holds_expire (coherent.setWatermark raises) history held unexpired
  | expire => exact holds_expire coherent history held unexpired
  | setWatermark => exact held

end Step

namespace Steps

theorem reached (steps : Steps events before after) (reached : Reached events before) :
    Reached events after := by
  induction steps with
  | refl => exact reached
  | tail _ step ih => exact .step ih step

theorem coherent (steps : Steps events before after) (coherent : Coherent events before)
    (history : IsHistory events) : Coherent events after := by
  induction steps with
  | refl => exact coherent
  | tail _ step ih => exact ih.step history step

theorem watermark_le (steps : Steps events before after) : before.watermark ≤ after.watermark := by
  induction steps with
  | refl => exact Int64.le_refl _
  | tail _ step ih => exact Int64.le_trans ih step.watermark_le

theorem holds (steps : Steps events before after) (coherent : Coherent events before)
    (history : IsHistory events) {event : ε} (held : before.Holds event)
    (unexpired : ¬ generation event ≤ after.watermark) : after.Holds event := by
  induction steps with
  | refl => exact held
  | tail earlier step ih =>
    refine step.holds (Steps.coherent earlier coherent history) history (ih ?_) unexpired
    exact fun expired => unexpired (Int64.le_trans expired step.watermark_le)

theorem covers (steps : Steps events before after) (coherent : Coherent events before)
    (history : IsHistory events) {event : ε} (covered : before.Covers event) :
    after.Covers event := by
  by_cases expired : generation event ≤ after.watermark
  · exact .inr expired
  · refine .inl (steps.holds coherent history (covered.resolve_right ?_) expired)
    exact fun earlier => expired (Int64.le_trans earlier steps.watermark_le)

end Steps
end Hashgraph.Replica
