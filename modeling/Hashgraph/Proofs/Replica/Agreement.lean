import Hashgraph.Proofs.Replica.Coverage

/-! Agreement of replicas. In a coherent replica the links follow from the events, so two replicas
that hold the same events are built in the same way, whatever order the events came in. At one
watermark, with nothing expired left, the tips alone settle the events: from a common tip both
replicas lead down the same chain. -/

namespace Hashgraph

open DagEvent

variable {ε : Type} [DagEvent ε] {events : Set ε} {replica other : Replica ε}

namespace Replica

open ShadowGraph

theorem Tracked.mem_tips_iff_of_graph (ours : replica.Tracked) (theirs : other.Tracked)
    (same : replica.graph = other.graph) (tip : EventHash) :
    tip ∈ replica.tips ↔ tip ∈ other.tips := by
  rw [ours.mem_tips, theirs.mem_tips, same]

namespace Coherent

theorem graph_eq_of_events (ours : Coherent events replica) (theirs : Coherent events other)
    (same : replica.events = other.events) : replica.graph = other.graph := by
  have event?_eq (hash : EventHash) : replica.graph.event? hash = other.graph.event? hash := by
    apply Option.ext
    intro event
    rw [holds_iff ours.linked, holds_iff theirs.linked, ← mem_events_iff ours.linked,
      ← mem_events_iff theirs.linked, same]
  refine eq_of_event?_isChild event?_eq fun line parent child => ?_
  have held_iff : parent ∈ replica.graph ↔ parent ∈ other.graph := by
    rw [mem_iff_event?, mem_iff_event?, event?_eq]
  constructor
  · intro recorded
    rw [theirs.isChild_iff (held_iff.mp recorded.mem), ← event?_eq]
    exact (ours.isChild_iff recorded.mem).mp recorded
  · intro recorded
    rw [ours.isChild_iff (held_iff.mpr recorded.mem), event?_eq]
    exact (theirs.isChild_iff recorded.mem).mp recorded

/-- A replica that has the tips of another one has all that lies below them. -/
theorem events_subset_of_tips (ours : Coherent events replica) (theirs : Coherent events other)
    (history : IsHistory events) (level : replica.watermark = other.watermark)
    (swept : replica.IsSwept) (shared : ∀ tip ∈ replica.tips, tip ∈ other.tips) :
    replica.events ⊆ other.events := by
  have present : ∀ hash ∈ replica.graph, hash ∈ other.graph := by
    intro hash held
    apply ours.linked.climb_induction (ours.falling history) _ held
    intro hash held above
    by_cases childless : ∀ child, ¬ replica.graph.IsChild .self hash child
    · have tip := ours.mem_tips.mpr ⟨held, childless⟩
      exact (theirs.mem_tips.mp (shared hash tip)).1
    · push Not at childless
      obtain ⟨child, recorded⟩ := childless
      obtain ⟨younger, youngerHeld, rfl, names⟩ := exists_child ours.linked recorded
      obtain ⟨older, found⟩ := mem_iff_event?.mp held
      obtain ⟨olderHeld, rfl⟩ := (holds_iff ours.linked).mp found
      have youngerMem := ours.mem_of_holds youngerHeld
      have youngerThere := theirs.holds_of_mem history youngerMem (above _ recorded)
      have covered := theirs.covers_parent history youngerMem (ours.mem_of_holds olderHeld) names
        (.inl youngerThere)
      exact (swept.holds_of_covers ours.linked level olderHeld covered).mem
  intro event mem
  have held := (mem_events_iff ours.linked).mp mem
  rw [mem_events_iff theirs.linked]
  exact theirs.holds_of_mem history (ours.mem_of_holds held) (present _ held.mem)

theorem events_eq_of_tips (ours : Coherent events replica) (theirs : Coherent events other)
    (history : IsHistory events) (level : replica.watermark = other.watermark)
    (swept : replica.IsSwept) (otherSwept : other.IsSwept)
    (same : ∀ tip, tip ∈ replica.tips ↔ tip ∈ other.tips) : replica.events = other.events :=
  Set.Subset.antisymm
    (ours.events_subset_of_tips theirs history level swept fun tip => (same tip).mp)
    (theirs.events_subset_of_tips ours history level.symm otherSwept fun tip => (same tip).mpr)

end Coherent
end Replica
end Hashgraph
