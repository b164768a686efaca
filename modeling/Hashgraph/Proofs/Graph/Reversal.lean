import Hashgraph.Proofs.Graph.Acyclicity

/-! Removal is the way back from an insertion, and an insertion the way back from a removal. The
graph before an insertion is the later graph pruned by the event that came in, and two graphs pruned
alike are the same, so that the order of removals does not matter either. -/

namespace Hashgraph.ShadowGraph

variable {ε : Type}

/-- Nothing but the events and links that remain makes a pruned graph. -/
theorem Pruned.unique {g left right : ShadowGraph ε} {gone : Set EventHash}
    (first : g.Pruned gone left) (second : g.Pruned gone right) : left = right := by
  apply eq_of_event?_isChild
  · intro hash
    by_cases mem : hash ∈ gone
    · rw [first.event?_gone mem, second.event?_gone mem]
    · rw [first.event?_kept mem, second.event?_kept mem]
  · intro line parent child
    rw [first.isChild_iff, second.isChild_iff]

variable [DagEvent ε] {g g' : ShadowGraph ε} {hash : EventHash} {event : ε}

theorem remove_fst : (g.remove hash).1 = g.get? hash := by
  rw [remove]
  cases found : g.get? hash with
  | none => rfl
  | some shadow => rfl

theorem Linked.insert_pruned (linked : g.Linked) (inserted : g.insert event = .ok g') :
    g'.Pruned {DagEvent.hash event} g where
  event?_kept kept := by
    rw [event?_insert inserted, if_neg]
    exact fun same => kept same.symm
  event?_gone := by
    rintro hash rfl
    exact event?_eq_none.mpr (not_mem_of_insert inserted)
  isChild_iff := by
    intro line parent child
    have absent := not_mem_of_insert inserted
    rw [isChild_insert inserted, Set.mem_singleton_iff, Set.mem_singleton_iff]
    constructor
    · intro recorded
      refine ⟨?_, ?_, .inl recorded⟩
      · rintro rfl
        exact absent recorded.mem
      · rintro rfl
        exact absent (linked.child_mem recorded)
    · rintro ⟨-, other, recorded | ⟨-, same, -⟩⟩
      · exact recorded
      · exact (other same).elim

theorem Linked.remove_insert (linked : g.Linked) (inserted : g.insert event = .ok g') :
    g'.remove (DagEvent.hash event) = (some { event }, g) := by
  apply Prod.ext
  · rw [remove_fst, get?_insert inserted, if_pos rfl]
  · have here := (linked.insert inserted).remove_pruned (DagEvent.hash event)
    exact here.unique (linked.insert_pruned inserted)

/-- Only a shadow without children comes back as it was, and only where its held parents, itself
apart, had recorded it. -/
theorem Linked.insert_remove (linked : g.Linked) (held : g.event? hash = some event)
    (childless : ∀ line child, ¬ g.IsChild line hash child)
    (recorded : ∀ line parent, DagEvent.Names line event parent → parent ∈ g → parent ≠ hash →
      g.IsChild line parent hash) :
    (g.remove hash).2.insert event = .ok g := by
  obtain rfl := linked.hash_eq held
  have pruned := linked.remove_pruned (DagEvent.hash event)
  obtain ⟨back, inserted⟩ := insert_ok (event?_eq_none.mp (pruned.event?_gone rfl))
  suffices back = g by rw [inserted, this]
  apply eq_of_event?_isChild
  · intro other
    rw [event?_insert inserted]
    split
    · rename_i same
      rw [← same, held]
    · rename_i different
      exact pruned.event?_kept fun same => different same.symm
  · intro line parent child
    rw [isChild_insert inserted, pruned.isChild_iff, pruned.mem_iff]
    constructor
    · rintro (⟨-, -, old⟩ | ⟨⟨other, parentHeld⟩, rfl, names⟩)
      · exact old
      · exact recorded line parent names parentHeld other
    · intro old
      have other : parent ≠ DagEvent.hash event := by
        rintro rfl
        exact childless line child old
      by_cases own : child = DagEvent.hash event
      · subst own
        obtain ⟨named, found, names⟩ := linked.child_names old
        obtain rfl := Option.some.inj (held.symm.trans found)
        exact .inr ⟨⟨other, old.mem⟩, rfl, names⟩
      · exact .inl ⟨other, own, old⟩

theorem Linked.remove_comm (linked : g.Linked) (first second : EventHash) :
    ((g.remove first).2.remove second).2 = ((g.remove second).2.remove first).2 := by
  have both (one other : EventHash) :
      g.Pruned ({one} ∪ {other}) ((g.remove one).2.remove other).2 := by
    have before := linked.remove_pruned one
    exact before.trans ((before.linked linked).remove_pruned other)
  apply (both first second).unique
  exact Set.union_comm {second} {first} ▸ both second first

/-- Whatever went into a graph and out of it before: an insertion is undone by the removal, the
removal of a childless shadow that its held parents have recorded is undone by the insertion, and
two removals give one graph in either order. -/
theorem reversals_of_edits (edits : List (Edit ε)) :
    let g := (∅ : ShadowGraph ε).editAll edits
    (∀ event, DagEvent.hash event ∉ g → ∃ wider, g.insert event = .ok wider ∧
      wider.remove (DagEvent.hash event) = (some { event }, g)) ∧
    (∀ hash shadow, g.get? hash = some shadow → shadow.children = [] →
      (∀ line parent, DagEvent.Names line shadow.event parent → parent ∈ g → parent ≠ hash →
        g.IsChild line parent hash) →
      ∃ rest, g.remove hash = (some shadow, rest) ∧ rest.insert shadow.event = .ok g) ∧
    ∀ first second,
      ((g.remove first).2.remove second).2 = ((g.remove second).2.remove first).2 := by
  intro g
  have linked : g.Linked := (Ordered.empty.editAll edits).toLinked
  refine ⟨?_, ?_, linked.remove_comm⟩
  · intro event absent
    obtain ⟨wider, inserted⟩ := insert_ok absent
    exact ⟨wider, inserted, linked.remove_insert inserted⟩
  · intro hash shadow found childless recorded
    refine ⟨(g.remove hash).2, Prod.ext (remove_fst.trans found) rfl, ?_⟩
    apply linked.insert_remove (event?_of_get? found) _ recorded
    intro line child old
    have listed := Shadow.mem_children.mpr ⟨line, (isChild_iff found).mp old⟩
    rw [childless] at listed
    exact List.not_mem_nil listed

def braid : List (Edit Outline) :=
  [.insert ⟨.filled 1, 0, none, none⟩,
    .insert ⟨.filled 2, 1, some ⟨.filled 1, 0⟩, some ⟨.filled 1, 0⟩⟩]

theorem reversals_of_braid :
    let g := (∅ : ShadowGraph Outline).editAll braid
    let loop : Outline := ⟨.filled 3, 2, some ⟨.filled 3, 2⟩, some ⟨.filled 2, 1⟩⟩
    (∃ wider, g.insert loop = .ok wider ∧ wider.remove (.filled 3) = (some { event := loop }, g)) ∧
    (∃ shadow rest, g.remove (.filled 2) = (some shadow, rest) ∧
      rest.insert shadow.event = .ok g) ∧
    ((g.remove (.filled 1)).2.remove (.filled 2)).2 =
      ((g.remove (.filled 2)).2.remove (.filled 1)).2 := by
  intro g loop
  obtain ⟨undone, redone, commute⟩ := reversals_of_edits braid
  refine ⟨undone loop (by decide +kernel), ?_, commute _ _⟩
  have childless : (g.get? (.filled 2)).map Shadow.children = some [] := by decide +kernel
  obtain ⟨shadow, found, barren⟩ := Option.map_eq_some_iff.mp childless
  have held : g.event? (.filled 2) =
      some ⟨.filled 2, 1, some ⟨.filled 1, 0⟩, some ⟨.filled 1, 0⟩⟩ := by decide +kernel
  have same := (event?_of_get? found).symm.trans held
  have bottom (line : Line) :
      (g.get? (.filled 1)).any fun trunk => (trunk.childrenOn line).contains (.filled 2) := by
    cases line <;> decide +kernel
  refine ⟨shadow, redone _ _ found barren fun line parent names _ _ => ?_⟩
  rw [Option.some.inj same] at names
  have first : parent = .filled 1 := by
    cases line <;> exact (Option.some.inj names).symm
  subst first
  exact (Option.any_eq_true _ _).mp (bottom line)

end Hashgraph.ShadowGraph
