import Hashgraph.Proofs.Graph.Descendants
import Hashgraph.Proofs.Graph.Pruning

/-! Recorded children never close a ring, whatever the events declare. A child is recorded only at
parents that are held when it comes in, so along the links the times of arrival rise. An event that
comes in again takes a new time and finds no child recorded at it. -/

namespace Hashgraph.ShadowGraph

variable {ε : Type}

/-- What a caller can do to a graph. -/
inductive Edit (ε : Type) where
  | insert (event : ε)
  | remove (hash : EventHash)
  | clear

/-- Each parent came in before the children that it has recorded, and all came in before `now`. -/
structure Timed (g : ShadowGraph ε) (arrival : EventHash → Nat) (now : Nat) : Prop where
  lt_now : ∀ {hash : EventHash}, hash ∈ g → arrival hash < now
  rises : ∀ {line : Line} {parent child : EventHash}, g.IsChild line parent child →
    arrival parent < arrival child

namespace Timed

variable {g g' : ShadowGraph ε} {arrival : EventHash → Nat} {now : Nat}

theorem empty (arrival : EventHash → Nat) (now : Nat) : (∅ : ShadowGraph ε).Timed arrival now where
  lt_now mem := (not_mem_empty _ mem).elim
  rises recorded := (not_isChild_empty recorded).elim

theorem pruned (timed : g.Timed arrival now) {gone : Set EventHash} (pruned : g.Pruned gone g') :
    g'.Timed arrival now where
  lt_now mem := timed.lt_now (pruned.mem_iff.mp mem).2
  rises recorded := timed.rises (pruned.isChild_iff.mp recorded).2.2

theorem lt_of_path (timed : g.Timed arrival now) {first last : EventHash}
    (path : Relation.TransGen g.Begets first last) : arrival first < arrival last := by
  induction path with
  | single step =>
    obtain ⟨line, recorded⟩ := step
    exact timed.rises recorded
  | tail _ step ih =>
    obtain ⟨line, recorded⟩ := step
    exact ih.trans (timed.rises recorded)

theorem acyclic (timed : g.Timed arrival now) (hash : EventHash) :
    ¬ Relation.TransGen g.Begets hash hash :=
  fun ring => Nat.lt_irrefl _ (timed.lt_of_path ring)

variable [DagEvent ε]

theorem insert (timed : g.Timed arrival now) (linked : g.Linked) {event : ε}
    (inserted : g.insert event = .ok g') :
    g'.Timed (Function.update arrival (DagEvent.hash event) now) (now + 1) := by
  have absent := not_mem_of_insert inserted
  have earlier {hash : EventHash} (held : hash ∈ g) :
      Function.update arrival (DagEvent.hash event) now hash = arrival hash := by
    refine Function.update_of_ne ?_ ..
    rintro rfl
    exact absent held
  constructor
  · intro hash mem
    rcases (mem_insert inserted).mp mem with rfl | held
    · rw [Function.update_self]
      omega
    · have before := timed.lt_now held
      rw [earlier held]
      omega
  · intro line parent child recorded
    rcases (isChild_insert inserted).mp recorded with old | ⟨held, rfl, -⟩
    · rw [earlier old.mem, earlier (linked.child_mem old)]
      exact timed.rises old
    · rw [earlier held, Function.update_self]
      exact timed.lt_now held

end Timed

variable [DagEvent ε]

/-- An insertion that is refused leaves the graph as it was. -/
def edit (g : ShadowGraph ε) : Edit ε → ShadowGraph ε
  | .insert event =>
    match g.insert event with
    | .ok inserted => inserted
    | .error _ => g
  | .remove hash => (g.remove hash).2
  | .clear => ∅

def editAll (g : ShadowGraph ε) (edits : List (Edit ε)) : ShadowGraph ε := edits.foldl edit g

section Insertion

variable {g g' : ShadowGraph ε} {event : ε} {fault : Fault}

theorem edit_insert_ok (inserted : g.insert event = .ok g') : g.edit (.insert event) = g' := by
  simp only [edit, inserted]

theorem edit_insert_error (refused : g.insert event = .error fault) :
    g.edit (.insert event) = g := by
  simp only [edit, refused]

theorem insert_of_mem (held : DagEvent.hash event ∈ g) :
    g.insert event = .error (.duplicateShadow (DagEvent.hash event)) := if_pos held

end Insertion

/-- Links are valid and lead from what came in earlier to what came in later. -/
structure Ordered (g : ShadowGraph ε) : Prop extends Linked g where
  timed : ∃ arrival now, g.Timed arrival now

namespace Ordered

variable {g : ShadowGraph ε}

theorem empty : (∅ : ShadowGraph ε).Ordered := ⟨.empty, fun _ => 0, 0, .empty _ _⟩

theorem edit (ordered : g.Ordered) (change : Edit ε) : (g.edit change).Ordered := by
  obtain ⟨linked, arrival, now, timed⟩ := ordered
  cases change with
  | insert event =>
    cases inserted : g.insert event with
    | ok after =>
      rw [edit_insert_ok inserted]
      exact ⟨linked.insert inserted, _, _, timed.insert linked inserted⟩
    | error fault =>
      rw [edit_insert_error inserted]
      exact ⟨linked, arrival, now, timed⟩
  | remove hash =>
    have pruned := linked.remove_pruned hash
    exact ⟨pruned.linked linked, arrival, now, timed.pruned pruned⟩
  | clear => exact .empty

theorem editAll (ordered : g.Ordered) (edits : List (Edit ε)) : (g.editAll edits).Ordered := by
  induction edits generalizing g with
  | nil => exact ordered
  | cons change rest ih => exact ih (ordered.edit change)

theorem acyclic (ordered : g.Ordered) (hash : EventHash) :
    ¬ Relation.TransGen g.Begets hash hash := by
  obtain ⟨arrival, now, timed⟩ := ordered.timed
  exact timed.acyclic hash

end Ordered

/-- Whatever goes into a graph and out of it again: recorded children are held, are others than the
parent, and name it, and the links close no ring. A second shadow for a held hash is refused. -/
theorem links_of_edits (edits : List (Edit ε)) :
    let g := (∅ : ShadowGraph ε).editAll edits
    (∀ hash shadow, g.get? hash = some shadow → shadow.hash = hash ∧
      ∀ line, ∀ child ∈ shadow.childrenOn line, child ≠ shadow.hash ∧
        ∃ held, g.get? child = some held ∧ DagEvent.Names line held.event shadow.hash) ∧
    (∀ hash, ¬ Relation.TransGen g.Begets hash hash) ∧
    ∀ event, DagEvent.hash event ∈ g →
      g.insert event = .error (.duplicateShadow (DagEvent.hash event)) ∧ g.edit (.insert event) = g := by
  intro g
  have ordered : g.Ordered := Ordered.empty.editAll edits
  refine ⟨?_, ordered.acyclic, ?_⟩
  · intro hash shadow found
    have own : shadow.hash = hash := ordered.hash_eq (event?_of_get? found)
    refine ⟨own, fun line child mem => ?_⟩
    have recorded : g.IsChild line shadow.hash child := own ▸ (isChild_iff found).mpr mem
    obtain ⟨event, childFound, names⟩ := ordered.child_names recorded
    obtain ⟨held, heldFound, rfl⟩ := exists_shadow childFound
    refine ⟨?_, held, heldFound, names⟩
    rintro rfl
    exact ordered.acyclic _ (.single ⟨line, recorded⟩)
  · intro event held
    have refused := insert_of_mem held
    exact ⟨refused, edit_insert_error refused⟩

end Hashgraph.ShadowGraph
