import Hashgraph.Proofs.Replica.Coverage

/-! Delivery of a list. A list is deliverable to a replica when its generations do not fall and
each parent of its events is held, expired, or in the list itself. Offered in order, no event of
such a list waits for a parent: a parent has the smaller generation, so its turn has come before. -/

namespace Hashgraph.Replica

open DagEvent ShadowGraph

variable {ε : Type} [DagEvent ε] {events : Set ε} {replica : Replica ε} {event : ε}
  {offered rest : List ε}

theorem addEvents_cons : replica.addEvents (event :: rest) =
    ((replica.addEvent event).1 :: ((replica.addEvent event).2.addEvents rest).1,
      ((replica.addEvent event).2.addEvents rest).2) := rfl

/-- To offer two lists is to offer one after the other. -/
theorem addEvents_append : replica.addEvents (offered ++ rest) =
    ((replica.addEvents offered).1 ++ ((replica.addEvents offered).2.addEvents rest).1,
      ((replica.addEvents offered).2.addEvents rest).2) := by
  induction offered generalizing replica with
  | nil => rfl
  | cons event others ih =>
    rw [List.cons_append, addEvents_cons, ih, addEvents_cons]
    rfl

@[simp] theorem length_addEvents : (replica.addEvents offered).1.length = offered.length := by
  induction offered generalizing replica with
  | nil => rfl
  | cons event rest ih => rw [addEvents_cons, List.length_cons, ih, List.length_cons]

@[simp] theorem addEvents_watermark :
    (replica.addEvents offered).2.watermark = replica.watermark := by
  induction offered generalizing replica with
  | nil => rfl
  | cons event rest ih => rw [addEvents_cons, ih, addEvent_watermark]

theorem Steps.addEvents (mem : ∀ event ∈ offered, event ∈ events) :
    Steps events replica (replica.addEvents offered).2 := by
  induction offered generalizing replica with
  | nil => exact .refl
  | cons event rest ih =>
    have first : Step events replica (replica.addEvent event).2 :=
      .add (mem event List.mem_cons_self)
    exact .head first (ih fun other later => mem other (List.mem_cons_of_mem _ later))

theorem IsSwept.addEvents (swept : replica.IsSwept) : (replica.addEvents offered).2.IsSwept := by
  induction offered generalizing replica with
  | nil => exact swept
  | cons event rest ih => exact ih (swept.addEvent event)

theorem Holds.addEvents (held : replica.Holds event) : (replica.addEvents offered).2.Holds event := by
  induction offered generalizing replica with
  | nil => exact held
  | cons added rest ih => exact ih held.addEvent

theorem Holds.of_addEvents (held : (replica.addEvents offered).2.Holds event) :
    replica.Holds event ∨ event ∈ offered := by
  induction offered generalizing replica with
  | nil => exact .inl held
  | cons added rest ih =>
    rcases ih held with earlier | mem
    · rcases earlier.of_addEvent with held | rfl
      · exact .inl held
      · exact .inr List.mem_cons_self
    · exact .inr (List.mem_cons_of_mem _ mem)

theorem Gathered.addEvents (gathered : Gathered events replica) (ascending : IsAscending events)
    (mem : ∀ event ∈ offered, event ∈ events) : Gathered events (replica.addEvents offered).2 := by
  induction offered generalizing replica with
  | nil => exact gathered
  | cons event rest ih =>
    obtain ⟨first, others⟩ := List.forall_mem_cons.mp mem
    exact ih (gathered.addEvent ascending first) others

theorem Covers.addEvents (covered : replica.Covers event) :
    (replica.addEvents offered).2.Covers event := by
  rcases covered with held | expired
  · exact .inl held.addEvents
  · exact .inr (by rwa [addEvents_watermark])

/-- An event whose parents are settled is covered once it was offered. -/
theorem Coherent.covers_addEvent (coherent : Coherent events replica) (history : IsHistory events)
    (mem : event ∈ events) (settles : replica.Settles event) :
    (replica.addEvent event).2.Covers event := by
  by_cases expired : generation event ≤ replica.watermark
  · exact .inr (by rwa [addEvent_watermark])
  · by_cases held : hash event ∈ replica.graph
    · exact .inl (coherent.holds_of_mem history mem held).addEvent
    · obtain ⟨graph, inserted, added⟩ :=
        addEvent_of_insertable (classify_eq_insertable.mpr ⟨held, expired, settles⟩)
      rw [added]
      exact .inl ((event?_insert inserted _).trans (if_pos rfl))

structure Deliverable (events : Set ε) (replica : Replica ε) (offered : List ε) : Prop where
  mem_events : ∀ event ∈ offered, event ∈ events
  sorted : offered.Pairwise fun first second => generation first ≤ generation second
  parents : ∀ event ∈ offered, ∀ (line : Line) (descriptor : Descriptor),
    parent line event = some descriptor → descriptor.hash ∈ replica.graph ∨
      descriptor.generation ≤ replica.watermark ∨ ∃ older ∈ offered, hash older = descriptor.hash

namespace Deliverable

theorem settles (deliverable : Deliverable events replica (event :: rest))
    (history : IsHistory events) : replica.Settles event := by
  intro line descriptor named
  have mem := deliverable.mem_events event List.mem_cons_self
  rcases deliverable.parents event List.mem_cons_self line descriptor named with
    held | expired | ⟨older, listed, same⟩
  · exact .inl held
  · exact .inr expired
  · -- a listed parent would come first
    have names : Names line event (hash older) := names_iff.mpr ⟨descriptor, named, same.symm⟩
    have below := history.lt_of_names mem (deliverable.mem_events older listed) names
    rcases List.mem_cons.mp listed with rfl | later
    · exact (Int64.lt_irrefl below).elim
    · have above := List.rel_of_pairwise_cons deliverable.sorted later
      exact (Int64.lt_irrefl (Int64.lt_of_lt_of_le below above)).elim

theorem tail (deliverable : Deliverable events replica (event :: rest))
    (coherent : Coherent events replica) (history : IsHistory events) :
    Deliverable events (replica.addEvent event).2 rest where
  mem_events other mem := deliverable.mem_events other (List.mem_cons_of_mem _ mem)
  sorted := deliverable.sorted.of_cons
  parents other mem line descriptor named := by
    have eventMem := deliverable.mem_events event List.mem_cons_self
    have otherMem := deliverable.mem_events other (List.mem_cons_of_mem _ mem)
    rcases deliverable.parents other (List.mem_cons_of_mem _ mem) line descriptor named with
      held | expired | ⟨older, listed, same⟩
    · obtain ⟨found, held⟩ := mem_iff_event?.mp held
      have own := coherent.linked.hash_eq held
      have kept : (replica.addEvent event).2.Holds found :=
        Holds.addEvent (show replica.Holds found by rw [Holds, own, held])
      exact .inl (own ▸ kept.mem)
    · exact .inr (.inl (by rwa [addEvent_watermark]))
    · rcases List.mem_cons.mp listed with rfl | later
      · rcases coherent.covers_addEvent history eventMem (deliverable.settles history) with
          held | expired
        · exact .inl (same ▸ held.mem)
        · rw [← history.declared otherMem eventMem named same.symm] at expired
          exact .inr (.inl expired)
      · exact .inr (.inr ⟨older, later, same⟩)

/-- No event of a deliverable list waits for a parent. -/
theorem not_retryable (deliverable : Deliverable events replica offered)
    (coherent : Coherent events replica) (history : IsHistory events) :
    ∀ status ∈ (replica.addEvents offered).1, status.isRetryable = false := by
  induction offered generalizing replica with
  | nil => exact fun status mem => (List.not_mem_nil mem).elim
  | cons event rest ih =>
    intro status mem
    rw [addEvents_cons] at mem
    rcases List.mem_cons.mp mem with rfl | later
    · rw [addEvent_fst]
      exact (deliverable.settles history).not_isRetryable
    · have offered := deliverable.mem_events event List.mem_cons_self
      exact ih (deliverable.tail coherent history) (coherent.addEvent history offered) status later

/-- After delivery every listed event is covered. -/
theorem covers (deliverable : Deliverable events replica offered)
    (coherent : Coherent events replica) (history : IsHistory events) (listed : event ∈ offered) :
    (replica.addEvents offered).2.Covers event := by
  induction offered generalizing replica with
  | nil => exact (List.not_mem_nil listed).elim
  | cons first rest ih =>
    have firstMem := deliverable.mem_events first List.mem_cons_self
    rcases List.mem_cons.mp listed with rfl | later
    · exact (coherent.covers_addEvent history firstMem (deliverable.settles history)).addEvents
    · exact ih (deliverable.tail coherent history) (coherent.addEvent history firstMem) later

theorem forall_insertable (deliverable : Deliverable events replica offered)
    (coherent : Coherent events replica) (history : IsHistory events) (nodup : offered.Nodup)
    (fresh : ∀ event ∈ offered, ¬ replica.Covers event) :
    ∀ status ∈ (replica.addEvents offered).1, status = .insertable := by
  induction offered generalizing replica with
  | nil => exact fun status mem => (List.not_mem_nil mem).elim
  | cons event rest ih =>
    intro status mem
    rw [addEvents_cons] at mem
    have offered := deliverable.mem_events event List.mem_cons_self
    have uncovered := fresh event List.mem_cons_self
    rcases List.mem_cons.mp mem with rfl | later
    · rw [addEvent_fst, classify_eq_insertable]
      exact ⟨fun held => uncovered (.inl (coherent.holds_of_mem history offered held)),
        fun expired => uncovered (.inr expired), deliverable.settles history⟩
    · refine ih (deliverable.tail coherent history) (coherent.addEvent history offered)
        nodup.of_cons ?_ status later
      rintro other listed (held | expired)
      · rcases held.of_addEvent with earlier | rfl
        · exact fresh other (List.mem_cons_of_mem _ listed) (.inl earlier)
        · exact (List.nodup_cons.mp nodup).1 listed
      · rw [addEvent_watermark] at expired
        exact fresh other (List.mem_cons_of_mem _ listed) (.inr expired)

/-- A deliverable list of distinct events that are neither held nor expired is taken in whole. -/
theorem insertable (deliverable : Deliverable events replica offered)
    (coherent : Coherent events replica) (history : IsHistory events) (nodup : offered.Nodup)
    (fresh : ∀ event ∈ offered, ¬ replica.Covers event) :
    (replica.addEvents offered).1 = List.replicate offered.length .insertable :=
  List.eq_replicate_iff.mpr
    ⟨length_addEvents, deliverable.forall_insertable coherent history nodup fresh⟩

end Deliverable
end Hashgraph.Replica
