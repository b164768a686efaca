import Hashgraph.Graph.Ancestry
import Hashgraph.Proofs.Event.History

/-! A shadow graph read as relations: which event stands at a hash, and which hash is a recorded
child of which. Intake and removal are described by what they do to these two, so that nothing
else has to look into the map. A linked graph keeps every event at its own hash and records as
children only held events that name the parent. -/

namespace Hashgraph

namespace Shadow

variable {ε : Type}

def childrenOn (line : Line) (shadow : Shadow ε) : EventHashSet :=
  match line with
  | .self => shadow.selfChildren
  | .other => shadow.otherChildren

theorem mem_children {shadow : Shadow ε} {child : EventHash} :
    child ∈ shadow.children ↔ ∃ line, child ∈ shadow.childrenOn line := by
  rw [children, List.mem_append, Std.ExtTreeSet.mem_toList, Std.ExtTreeSet.mem_toList,
    Line.exists_iff]
  rfl

theorem mem_addSelfChild {shadow : Shadow ε} {line : Line} {child added : EventHash} :
    child ∈ (shadow.addSelfChild added).childrenOn line ↔
      child ∈ shadow.childrenOn line ∨ line = .self ∧ child = added := by
  cases line <;>
    simp [childrenOn, addSelfChild, or_comm, @eq_comm _ added]

theorem mem_addOtherChild {shadow : Shadow ε} {line : Line} {child added : EventHash} :
    child ∈ (shadow.addOtherChild added).childrenOn line ↔
      child ∈ shadow.childrenOn line ∨ line = .other ∧ child = added := by
  cases line <;>
    simp [childrenOn, addOtherChild, or_comm, @eq_comm _ added]

theorem mem_removeSelfChild {shadow : Shadow ε} {line : Line} {child gone : EventHash} :
    child ∈ (shadow.removeSelfChild gone).childrenOn line ↔
      child ∈ shadow.childrenOn line ∧ ¬ (line = .self ∧ child = gone) := by
  cases line <;>
    simp [childrenOn, removeSelfChild, and_comm, @eq_comm _ gone]

theorem mem_removeOtherChild {shadow : Shadow ε} {line : Line} {child gone : EventHash} :
    child ∈ (shadow.removeOtherChild gone).childrenOn line ↔
      child ∈ shadow.childrenOn line ∧ ¬ (line = .other ∧ child = gone) := by
  cases line <;>
    simp [childrenOn, removeOtherChild, and_comm, @eq_comm _ gone]

theorem isTip_iff {shadow : Shadow ε} : shadow.isTip ↔ ∀ child, child ∉ shadow.selfChildren := by
  rw [isTip, Std.ExtTreeSet.isEmpty_iff]
  constructor
  · intro none child
    rw [none]
    exact Std.ExtTreeSet.not_mem_empty
  · intro none
    exact Std.ExtTreeSet.ext_mem fun child => iff_of_false (none child) Std.ExtTreeSet.not_mem_empty

end Shadow

namespace ShadowGraph

variable {ε : Type}

def event? (g : ShadowGraph ε) (hash : EventHash) : Option ε := (g.get? hash).map Shadow.event

def IsChild (g : ShadowGraph ε) (line : Line) (parent child : EventHash) : Prop :=
  ∃ shadow, g.get? parent = some shadow ∧ child ∈ shadow.childrenOn line

/-- A held hash with no recorded self-child. -/
def IsLeaf (g : ShadowGraph ε) (hash : EventHash) : Prop :=
  hash ∈ g ∧ ∀ child, ¬ g.IsChild .self hash child

theorem mem_iff_event? {g : ShadowGraph ε} {hash : EventHash} :
    hash ∈ g ↔ ∃ event, g.event? hash = some event := by
  rw [mem_iff_isSome, event?]
  cases g.get? hash <;> simp

theorem event?_eq_none {g : ShadowGraph ε} {hash : EventHash} : g.event? hash = none ↔ hash ∉ g := by
  rw [mem_iff_event?, Option.eq_none_iff_forall_ne_some]
  simp

theorem get?_eq_none {g : ShadowGraph ε} {hash : EventHash} : g.get? hash = none ↔ hash ∉ g := by
  rw [mem_iff_isSome, Option.not_isSome_iff_eq_none]

theorem event?_of_get? {g : ShadowGraph ε} {hash : EventHash} {shadow : Shadow ε}
    (held : g.get? hash = some shadow) : g.event? hash = some shadow.event := by
  rw [event?, held, Option.map_some]

theorem exists_shadow {g : ShadowGraph ε} {hash : EventHash} {event : ε}
    (held : g.event? hash = some event) :
    ∃ shadow, g.get? hash = some shadow ∧ shadow.event = event :=
  Option.map_eq_some_iff.mp held

theorem mem_of_event? {g : ShadowGraph ε} {hash : EventHash} {event : ε}
    (held : g.event? hash = some event) : hash ∈ g :=
  mem_iff_event?.mpr ⟨event, held⟩

theorem isChild_iff {g : ShadowGraph ε} {line : Line} {hash child : EventHash} {shadow : Shadow ε}
    (held : g.get? hash = some shadow) :
    g.IsChild line hash child ↔ child ∈ shadow.childrenOn line := by
  rw [IsChild, held]
  simp

theorem IsChild.mem {g : ShadowGraph ε} {line : Line} {parent child : EventHash}
    (recorded : g.IsChild line parent child) : parent ∈ g := by
  obtain ⟨shadow, held, _⟩ := recorded
  exact mem_of_event? (event?_of_get? held)

theorem isLeaf_iff_isTip {g : ShadowGraph ε} {hash : EventHash} {shadow : Shadow ε}
    (held : g.get? hash = some shadow) : g.IsLeaf hash ↔ shadow.isTip := by
  rw [Shadow.isTip_iff]
  constructor
  · rintro ⟨_, childless⟩ child mem
    exact childless child ((isChild_iff held).mpr mem)
  · intro childless
    exact ⟨mem_of_event? (event?_of_get? held),
      fun child recorded => childless child ((isChild_iff held).mp recorded)⟩

/-- A graph is nothing but its events and its links. -/
theorem eq_of_event?_isChild {g g' : ShadowGraph ε}
    (events : ∀ hash, g.event? hash = g'.event? hash)
    (children : ∀ line parent child, g.IsChild line parent child ↔ g'.IsChild line parent child) :
    g = g' := by
  ext1 hash
  change g.get? hash = g'.get? hash
  cases found : g.get? hash with
  | none =>
    have absent : hash ∉ g' := by
      rw [← event?_eq_none, ← events, event?_eq_none]
      exact get?_eq_none.mp found
    exact (get?_eq_none.mpr absent).symm
  | some shadow =>
    obtain ⟨twin, twinFound, sameEvent⟩ :=
      exists_shadow ((events hash).symm.trans (event?_of_get? found))
    have sameChildren (line : Line) : shadow.childrenOn line = twin.childrenOn line := by
      apply Std.ExtTreeSet.ext_mem
      intro child
      rw [← isChild_iff found, ← isChild_iff twinFound]
      exact children line hash child
    rw [twinFound]
    obtain ⟨event, selfChildren, otherChildren⟩ := shadow
    obtain ⟨_, _, _⟩ := twin
    cases sameEvent
    cases sameChildren .self
    cases sameChildren .other
    rfl

/-- A change at a parent reaches the shadow at the hash that the parent has. -/
theorem get?_adjust (g : ShadowGraph ε) (parent : Option Descriptor)
    (change : Shadow ε → Shadow ε) (hash : EventHash) :
    (g.adjust parent change).get? hash = (g.get? hash).map fun shadow =>
      if parent.map Descriptor.hash = some hash then change shadow else shadow := by
  cases parent with
  | none => simp [adjust]
  | some parent =>
    simp only [adjust, get?, Std.ExtTreeMap.getElem?_modify, Std.LawfulEqCmp.compare_eq_iff_eq,
      Option.map_some, Option.some.injEq]
    split
    · simp_all
    · simp

theorem event?_adjust (g : ShadowGraph ε) (parent : Option Descriptor)
    {change : Shadow ε → Shadow ε} (keeps : ∀ shadow, (change shadow).event = shadow.event)
    (hash : EventHash) : (g.adjust parent change).event? hash = g.event? hash := by
  rw [event?, event?, get?_adjust, Option.map_map]
  congr 1
  funext shadow
  simp only [Function.comp_apply]
  split
  · exact keeps shadow
  · rfl

/-- A change that adds a child on one line. -/
theorem isChild_adjust_add (g : ShadowGraph ε) (parent : Option Descriptor)
    {change : Shadow ε → Shadow ε} {on : Line} {added : EventHash}
    (adds : ∀ {shadow line child}, child ∈ (change shadow).childrenOn line ↔
      child ∈ shadow.childrenOn line ∨ line = on ∧ child = added)
    {line : Line} {hash child : EventHash} :
    (g.adjust parent change).IsChild line hash child ↔ g.IsChild line hash child ∨
      hash ∈ g ∧ line = on ∧ child = added ∧ parent.map Descriptor.hash = some hash := by
  simp only [IsChild, get?_adjust, mem_iff_isSome]
  cases g.get? hash with
  | none => simp
  | some shadow =>
    simp only [Option.map_some, Option.some.injEq, exists_eq_left', Option.isSome_some, true_and]
    split <;> simp_all

/-- A change that strikes a child off on one line. -/
theorem isChild_adjust_strike (g : ShadowGraph ε) (parent : Option Descriptor)
    {change : Shadow ε → Shadow ε} {on : Line} {gone : EventHash}
    (strikes : ∀ {shadow line child}, child ∈ (change shadow).childrenOn line ↔
      child ∈ shadow.childrenOn line ∧ ¬ (line = on ∧ child = gone))
    {line : Line} {hash child : EventHash} :
    (g.adjust parent change).IsChild line hash child ↔ g.IsChild line hash child ∧
      ¬ (line = on ∧ child = gone ∧ parent.map Descriptor.hash = some hash) := by
  simp only [IsChild, get?_adjust]
  cases g.get? hash with
  | none => simp
  | some shadow =>
    simp only [Option.map_some, Option.some.injEq, exists_eq_left']
    split <;> simp_all

section Intake

variable [DagEvent ε] {g g' : ShadowGraph ε} {event : ε}

/-- The graph in which the parents that an event names have recorded it. -/
def adopted (g : ShadowGraph ε) (event : ε) : ShadowGraph ε :=
  (g.adjust (DagEvent.selfParent event) (Shadow.addSelfChild (DagEvent.hash event))).adjust
    (DagEvent.otherParent event) (Shadow.addOtherChild (DagEvent.hash event))

theorem event?_adopted (hash : EventHash) : (g.adopted event).event? hash = g.event? hash := by
  rw [adopted, event?_adjust, event?_adjust]
  · exact fun _ => rfl
  · exact fun _ => rfl

theorem isChild_adopted {line : Line} {parent child : EventHash} :
    (g.adopted event).IsChild line parent child ↔ g.IsChild line parent child ∨
      parent ∈ g ∧ child = DagEvent.hash event ∧ DagEvent.Names line event parent := by
  have same : parent ∈ g.adjust (DagEvent.selfParent event)
      (Shadow.addSelfChild (DagEvent.hash event)) ↔ parent ∈ g := by
    rw [mem_iff_event?, mem_iff_event?, event?_adjust]
    exact fun _ => rfl
  rw [adopted, isChild_adjust_add _ _ Shadow.mem_addOtherChild,
    isChild_adjust_add _ _ Shadow.mem_addSelfChild, same, DagEvent.Names]
  cases line <;> simp [DagEvent.parent]

theorem not_mem_of_insert (inserted : g.insert event = .ok g') : DagEvent.hash event ∉ g := by
  intro held
  rw [insert, if_pos held] at inserted
  contradiction

theorem insert_ok (fresh : DagEvent.hash event ∉ g) : ∃ g', g.insert event = .ok g' :=
  ⟨_, if_neg fresh⟩

theorem get?_insert (inserted : g.insert event = .ok g') (hash : EventHash) :
    g'.get? hash =
      if DagEvent.hash event = hash then some { event } else (g.adopted event).get? hash := by
  rw [insert, if_neg (not_mem_of_insert inserted)] at inserted
  obtain rfl := Except.ok.inj inserted
  simp only [get?, adopted, Std.ExtTreeMap.getElem?_insert, Std.LawfulEqCmp.compare_eq_iff_eq]

/-- Intake adds the event at its hash. -/
theorem event?_insert (inserted : g.insert event = .ok g') (hash : EventHash) :
    g'.event? hash = if DagEvent.hash event = hash then some event else g.event? hash := by
  rw [event?, get?_insert inserted]
  split
  · rfl
  · exact event?_adopted hash

theorem mem_insert (inserted : g.insert event = .ok g') {hash : EventHash} :
    hash ∈ g' ↔ hash = DagEvent.hash event ∨ hash ∈ g := by
  rw [mem_iff_event?, event?_insert inserted, mem_iff_event?]
  split
  · simp_all
  · simp_all [eq_comm]

/-- Intake records the event at the held parents that it names. -/
theorem isChild_insert (inserted : g.insert event = .ok g') {line : Line}
    {parent child : EventHash} :
    g'.IsChild line parent child ↔ g.IsChild line parent child ∨
      parent ∈ g ∧ child = DagEvent.hash event ∧ DagEvent.Names line event parent := by
  by_cases same : DagEvent.hash event = parent
  · have absent : parent ∉ g := same ▸ not_mem_of_insert inserted
    have fresh : g'.get? parent = some { event } := by rw [get?_insert inserted, if_pos same]
    have childless : child ∉ (Shadow.mk event ∅ ∅).childrenOn line := by
      cases line <;> exact Std.ExtTreeSet.not_mem_empty
    rw [isChild_iff fresh]
    refine iff_of_false childless ?_
    rintro (recorded | ⟨held, _⟩)
    · exact absent recorded.mem
    · exact absent held
  · rw [← isChild_adopted, IsChild, IsChild, get?_insert inserted, if_neg same]

end Intake

section Removal

variable [DagEvent ε] {g : ShadowGraph ε} {hash : EventHash}

/-- The graph without the shadow at a hash, but with all recorded children as they were. -/
def without (g : ShadowGraph ε) (hash : EventHash) : ShadowGraph ε := ⟨g.shadows.erase hash⟩

omit [DagEvent ε] in
theorem get?_without (other : EventHash) :
    (g.without hash).get? other = if hash = other then none else g.get? other := by
  simp only [get?, without, Std.ExtTreeMap.getElem?_erase, Std.LawfulEqCmp.compare_eq_iff_eq]

omit [DagEvent ε] in
theorem isChild_without {line : Line} {parent child : EventHash} :
    (g.without hash).IsChild line parent child ↔ parent ≠ hash ∧ g.IsChild line parent child := by
  rw [IsChild, get?_without, IsChild]
  split <;> simp_all [eq_comm]

theorem remove_of_not_mem (absent : hash ∉ g) : (g.remove hash).2 = g := by
  rw [remove, get?_eq_none.mpr absent]

theorem remove_of_get? {shadow : Shadow ε} (held : g.get? hash = some shadow) :
    (g.remove hash).2 =
      ((g.without hash).adjust shadow.selfParent (Shadow.removeSelfChild hash)).adjust
        shadow.otherParent (Shadow.removeOtherChild hash) := by
  rw [remove, held]
  rfl

/-- Removal takes away the event at this hash. -/
theorem event?_remove (other : EventHash) :
    (g.remove hash).2.event? other = if hash = other then none else g.event? other := by
  cases held : g.get? hash with
  | none =>
    rw [remove_of_not_mem (get?_eq_none.mp held)]
    split
    · rename_i same
      rw [event?, ← same, held, Option.map_none]
    · rfl
  | some shadow =>
    rw [remove_of_get? held, event?_adjust, event?_adjust, event?, get?_without]
    · split <;> rfl
    · exact fun _ => rfl
    · exact fun _ => rfl

/-- Removal strikes the hash off at the held parents that its event names. -/
theorem isChild_remove {event : ε} (held : g.event? hash = some event) {line : Line}
    {parent child : EventHash} :
    (g.remove hash).2.IsChild line parent child ↔
      parent ≠ hash ∧ g.IsChild line parent child ∧
        ¬ (child = hash ∧ DagEvent.Names line event parent) := by
  obtain ⟨shadow, found, rfl⟩ := exists_shadow held
  rw [remove_of_get? found, isChild_adjust_strike _ _ Shadow.mem_removeOtherChild,
    isChild_adjust_strike _ _ Shadow.mem_removeSelfChild, isChild_without, DagEvent.Names]
  cases line <;>
    simp [DagEvent.parent, Shadow.selfParent, Shadow.otherParent, and_assoc]

end Removal

section Linked

variable [DagEvent ε]

/-- Every event is held at its own hash, and recorded children are held and name the parent. -/
structure Linked (g : ShadowGraph ε) : Prop where
  hash_eq : ∀ {hash : EventHash} {event : ε}, g.event? hash = some event →
    DagEvent.hash event = hash
  child_names : ∀ {line : Line} {parent child : EventHash}, g.IsChild line parent child →
    ∃ event, g.event? child = some event ∧ DagEvent.Names line event parent

variable {g g' : ShadowGraph ε}

theorem Linked.child_mem (linked : g.Linked) {line : Line} {parent child : EventHash}
    (recorded : g.IsChild line parent child) : child ∈ g := by
  obtain ⟨event, held, _⟩ := linked.child_names recorded
  exact mem_of_event? held

omit [DagEvent ε] in
theorem event?_empty (hash : EventHash) : (∅ : ShadowGraph ε).event? hash = none :=
  congrArg (Option.map Shadow.event) Std.ExtTreeMap.getElem?_empty

omit [DagEvent ε] in
theorem not_mem_empty (hash : EventHash) : hash ∉ (∅ : ShadowGraph ε) :=
  event?_eq_none.mp (event?_empty hash)

omit [DagEvent ε] in
theorem not_isChild_empty {line : Line} {parent child : EventHash} :
    ¬ (∅ : ShadowGraph ε).IsChild line parent child :=
  fun recorded => not_mem_empty parent recorded.mem

theorem Linked.empty : (∅ : ShadowGraph ε).Linked where
  hash_eq held := by
    rw [event?_empty] at held
    contradiction
  child_names recorded := (not_isChild_empty recorded).elim

theorem Linked.insert (linked : g.Linked) {event : ε} (inserted : g.insert event = .ok g') :
    g'.Linked where
  hash_eq held := by
    rw [event?_insert inserted] at held
    split at held
    · rename_i same
      exact Option.some.inj held ▸ same
    · exact linked.hash_eq held
  child_names recorded := by
    rw [isChild_insert inserted] at recorded
    rcases recorded with earlier | ⟨_, rfl, names⟩
    · obtain ⟨other, held, names⟩ := linked.child_names earlier
      refine ⟨other, ?_, names⟩
      rw [event?_insert inserted, if_neg, held]
      intro same
      exact not_mem_of_insert inserted (same ▸ mem_of_event? held)
    · exact ⟨event, by rw [event?_insert inserted, if_pos rfl], names⟩

end Linked

end ShadowGraph
end Hashgraph
