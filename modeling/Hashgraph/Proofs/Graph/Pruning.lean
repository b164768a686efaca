import Mathlib.Data.Set.Insert
import Mathlib.Logic.Relation
import Mathlib.Tactic.Tauto
import Hashgraph.Proofs.Graph.Links

/-! Pruning: a graph from which a set of hashes is gone while everything else stays as it was, the
recorded children of the survivors included. In a linked graph a removal prunes one hash, and where
generations fall along the self-parents the removal along a chain prunes what matches on it. -/

namespace Hashgraph.ShadowGraph

variable {ε : Type}

structure Pruned (g : ShadowGraph ε) (gone : Set EventHash) (g' : ShadowGraph ε) : Prop where
  event?_kept : ∀ {hash : EventHash}, hash ∉ gone → g'.event? hash = g.event? hash
  event?_gone : ∀ {hash : EventHash}, hash ∈ gone → g'.event? hash = none
  isChild_iff : ∀ {line : Line} {parent child : EventHash},
    g'.IsChild line parent child ↔ parent ∉ gone ∧ child ∉ gone ∧ g.IsChild line parent child

namespace Pruned

variable {g g' g'' : ShadowGraph ε} {gone more : Set EventHash}

theorem refl (g : ShadowGraph ε) : g.Pruned ∅ g where
  event?_kept _ := rfl
  event?_gone mem := mem.elim
  isChild_iff := by simp

theorem trans (first : g.Pruned gone g') (second : g'.Pruned more g'') :
    g.Pruned (gone ∪ more) g'' where
  event?_kept kept := by
    rw [Set.mem_union, not_or] at kept
    rw [second.event?_kept kept.2, first.event?_kept kept.1]
  event?_gone {hash} mem := by
    by_cases late : hash ∈ more
    · exact second.event?_gone late
    · rw [second.event?_kept late]
      exact first.event?_gone (mem.resolve_right late)
  isChild_iff := by
    intro line parent child
    rw [second.isChild_iff, first.isChild_iff, Set.mem_union, Set.mem_union]
    tauto

theorem congr (pruned : g.Pruned gone g') (same : ∀ hash, hash ∈ gone ↔ hash ∈ more) :
    g.Pruned more g' := Set.ext same ▸ pruned

theorem event?_eq_some (pruned : g.Pruned gone g') {hash : EventHash} {event : ε} :
    g'.event? hash = some event ↔ hash ∉ gone ∧ g.event? hash = some event := by
  by_cases mem : hash ∈ gone
  · simp [mem, pruned.event?_gone mem]
  · simp [mem, pruned.event?_kept mem]

theorem mem_iff (pruned : g.Pruned gone g') {hash : EventHash} :
    hash ∈ g' ↔ hash ∉ gone ∧ hash ∈ g := by
  simp only [mem_iff_event?, pruned.event?_eq_some, exists_and_left]

theorem linked [DagEvent ε] (pruned : g.Pruned gone g') (linked : g.Linked) : g'.Linked where
  hash_eq held := linked.hash_eq (pruned.event?_eq_some.mp held).2
  child_names recorded := by
    obtain ⟨_, kept, earlier⟩ := pruned.isChild_iff.mp recorded
    obtain ⟨event, held, names⟩ := linked.child_names earlier
    exact ⟨event, pruned.event?_eq_some.mpr ⟨kept, held⟩, names⟩

end Pruned

variable [DagEvent ε] {g g' : ShadowGraph ε} {gone : Set EventHash}

theorem Linked.remove_pruned (linked : g.Linked) (hash : EventHash) :
    g.Pruned {hash} (g.remove hash).2 where
  event?_kept kept := by
    rw [event?_remove, if_neg]
    exact fun same => kept same.symm
  event?_gone mem := by rw [event?_remove, if_pos mem.symm]
  isChild_iff := by
    intro line parent child
    rw [Set.mem_singleton_iff, Set.mem_singleton_iff]
    cases found : g.event? hash with
    | none =>
      have absent := event?_eq_none.mp found
      rw [remove_of_not_mem absent]
      constructor
      · intro recorded
        exact ⟨fun same => absent (same ▸ recorded.mem),
          fun same => absent (same ▸ linked.child_mem recorded), recorded⟩
      · exact fun recorded => recorded.2.2
    | some event =>
      rw [isChild_remove found]
      constructor
      · rintro ⟨other, recorded, unnamed⟩
        refine ⟨other, fun same => unnamed ⟨same, ?_⟩, recorded⟩
        obtain ⟨named, held, names⟩ := linked.child_names recorded
        rw [same, found] at held
        exact Option.some.inj held ▸ names
      · rintro ⟨other, different, recorded⟩
        exact ⟨other, recorded, fun struck => different struck.1⟩

/-- A held self-parent of a held event. -/
def SelfParent (g : ShadowGraph ε) (child parent : EventHash) : Prop :=
  parent ∈ g ∧ ∃ event, g.event? child = some event ∧ DagEvent.Names .self event parent

def Falling (g : ShadowGraph ε) : Prop :=
  ∀ {child parent : EventHash} {event older : ε}, g.event? child = some event →
    DagEvent.Names .self event parent → g.event? parent = some older →
    DagEvent.generation older < DagEvent.generation event

/-- The unbroken chain of held self-parents from a cursor on. -/
def OnChain (g : ShadowGraph ε) (cursor : Option EventHash) (hash : EventHash) : Prop :=
  ∃ start, cursor = some start ∧ start ∈ g ∧ Relation.ReflTransGen g.SelfParent start hash

theorem Falling.pruned (falling : g.Falling) (pruned : g.Pruned gone g') : g'.Falling :=
  fun held names older => falling (pruned.event?_eq_some.mp held).2 names
    (pruned.event?_eq_some.mp older).2

theorem Pruned.selfParent_iff (pruned : g.Pruned gone g') {child parent : EventHash} :
    g'.SelfParent child parent ↔ child ∉ gone ∧ parent ∉ gone ∧ g.SelfParent child parent := by
  simp only [SelfParent, pruned.mem_iff, pruned.event?_eq_some]
  constructor
  · rintro ⟨⟨kept, held⟩, event, ⟨remains, found⟩, names⟩
    exact ⟨remains, kept, held, event, found, names⟩
  · rintro ⟨remains, kept, held, event, found, names⟩
    exact ⟨⟨kept, held⟩, event, ⟨remains, found⟩, names⟩

/-- Induction from the recorded self-children down to their parent: generations have a top, so
one cannot climb for ever. -/
theorem Linked.climb_induction (linked : g.Linked) (falling : g.Falling) {motive : EventHash → Prop}
    (climb : ∀ hash ∈ g, (∀ child, g.IsChild .self hash child → motive child) → motive hash)
    {hash : EventHash} (held : hash ∈ g) : motive hash := by
  obtain ⟨event, found⟩ := mem_iff_event?.mp held
  -- the distance to the top of the range shrinks from an event to its child
  induction distance : (Int64.maxValue.toInt - (DagEvent.generation event).toInt).toNat
    using Nat.strong_induction_on generalizing hash event with
  | h distance ih =>
    apply climb hash held
    intro child recorded
    obtain ⟨younger, childFound, names⟩ := linked.child_names recorded
    have rises := falling childFound names found
    rw [Int64.lt_iff_toInt_lt] at rises
    have top := Int64.toInt_le (DagEvent.generation younger)
    exact ih _ (by omega) (mem_of_event? childFound) younger childFound rfl

/-- Down the chain generations do not rise. -/
theorem Falling.le_of_path (falling : g.Falling) {start hash : EventHash} {first event : ε}
    (path : Relation.ReflTransGen g.SelfParent start hash) (top : g.event? start = some first)
    (held : g.event? hash = some event) :
    DagEvent.generation event ≤ DagEvent.generation first := by
  induction path generalizing event with
  | refl =>
    rw [top] at held
    exact Int64.le_of_eq (congrArg DagEvent.generation (Option.some.inj held).symm)
  | tail _ step ih =>
    obtain ⟨_, child, found, names⟩ := step
    exact Int64.le_trans (Int64.le_of_lt (falling found names held)) (ih found)

section Chain

variable {cursor : Option EventHash} {hash : EventHash}

theorem OnChain.mem (on : g.OnChain cursor hash) : hash ∈ g := by
  obtain ⟨start, _, held, path⟩ := on
  cases path with
  | refl => exact held
  | tail _ step => exact step.1

theorem onChain_some {event : ε} (held : g.event? hash = some event) {other : EventHash} :
    g.OnChain (some hash) other ↔
      other = hash ∨ g.OnChain ((DagEvent.selfParent event).map Descriptor.hash) other := by
  constructor
  · rintro ⟨start, same, _, path⟩
    obtain rfl := Option.some.inj same
    rcases path.cases_head with rfl | ⟨parent, ⟨parentHeld, child, found, names⟩, rest⟩
    · exact .inl rfl
    · rw [held] at found
      obtain rfl := Option.some.inj found
      exact .inr ⟨parent, names, parentHeld, rest⟩
  · rintro (rfl | ⟨parent, names, parentHeld, path⟩)
    · exact ⟨other, rfl, mem_of_event? held, .refl⟩
    · exact ⟨hash, rfl, mem_of_event? held, .head ⟨parentHeld, event, held, names⟩ path⟩

/-- Below an event there are only smaller generations. -/
theorem Falling.lt_of_onChain (falling : g.Falling) {event older : ε}
    (held : g.event? hash = some event) {other : EventHash} (found : g.event? other = some older)
    (on : g.OnChain ((DagEvent.selfParent event).map Descriptor.hash) other) :
    DagEvent.generation older < DagEvent.generation event := by
  obtain ⟨parent, names, parentHeld, path⟩ := on
  obtain ⟨middle, parentFound⟩ := mem_iff_event?.mp parentHeld
  exact Int64.lt_of_le_of_lt (falling.le_of_path path parentFound found)
    (falling held names parentFound)

/-- Pruning off the chain leaves the chain as it was. -/
theorem Pruned.onChain_iff (pruned : g.Pruned gone g')
    (avoids : ∀ other, g.OnChain cursor other → other ∉ gone) :
    g'.OnChain cursor hash ↔ g.OnChain cursor hash := by
  constructor
  · rintro ⟨start, rfl, held, path⟩
    have wider : ∀ child parent, g'.SelfParent child parent → g.SelfParent child parent :=
      fun _ _ step => (pruned.selfParent_iff.mp step).2.2
    exact ⟨start, rfl, (pruned.mem_iff.mp held).2, Relation.ReflTransGen.mono wider _ _ path⟩
  · rintro ⟨start, rfl, held, path⟩
    refine ⟨start, rfl, pruned.mem_iff.mpr ⟨avoids _ ⟨start, rfl, held, .refl⟩, held⟩, ?_⟩
    induction path with
    | refl => exact .refl
    | tail before step ih =>
      have here := avoids _ ⟨start, rfl, held, before⟩
      have next := avoids _ ⟨start, rfl, held, before.tail step⟩
      exact ih.tail (pruned.selfParent_iff.mpr ⟨here, next, step⟩)

/-- What a removal along the chain takes away: the events on the chain that match. -/
def matchingOn (g : ShadowGraph ε) (matching : ε → Bool) (cursor : Option EventHash) :
    Set EventHash :=
  {hash | g.OnChain cursor hash ∧ ∃ event, g.event? hash = some event ∧ matching event}

variable {matching : ε → Bool} {event : ε}

theorem mem_matchingOn_some (held : g.event? hash = some event) {other : EventHash} :
    other ∈ g.matchingOn matching (some hash) ↔ other = hash ∧ matching event ∨
      other ∈ g.matchingOn matching ((DagEvent.selfParent event).map Descriptor.hash) := by
  simp only [matchingOn, Set.mem_ofPred_eq, onChain_some held, or_and_right]
  refine or_congr_left (and_congr_right ?_)
  rintro rfl
  simp [held]

theorem Pruned.matchingOn_parent (falling : g.Falling) (held : g.event? hash = some event)
    (pruned : g.Pruned {hash} g') :
    g'.matchingOn matching ((DagEvent.selfParent event).map Descriptor.hash) =
      g.matchingOn matching ((DagEvent.selfParent event).map Descriptor.hash) := by
  have avoids : ∀ other, g.OnChain ((DagEvent.selfParent event).map Descriptor.hash) other →
      other ∉ ({hash} : Set EventHash) := by
    rintro other on rfl
    exact Int64.lt_irrefl (falling.lt_of_onChain held held on)
  ext other
  simp only [matchingOn, Set.mem_ofPred_eq, pruned.onChain_iff avoids]
  refine and_congr_right fun on => ?_
  rw [pruned.event?_kept (avoids other on)]

/-- The removal along a chain takes away exactly the matching events of the chain. The shadows
passed lie above the cursor, so that the walk never comes back to one of them. -/
theorem removeChain_pruned (matching : ε → Bool) (g : ShadowGraph ε) (passed : EventHashSet)
    (cursor : Option EventHash) (linked : g.Linked) (falling : g.Falling)
    (above : ∀ {hash start : EventHash} {event first : ε}, hash ∈ passed → cursor = some start →
      g.event? start = some first → g.event? hash = some event →
      DagEvent.generation first < DagEvent.generation event) :
    g.Pruned (g.matchingOn matching cursor)
      (g.removeChain (fun shadow => matching shadow.event) passed cursor).2 := by
  fun_induction g.removeChain (fun shadow => matching shadow.event) passed cursor with
  | case1 g passed =>
    refine (Pruned.refl g).congr fun hash => iff_of_false id ?_
    rintro ⟨⟨start, some, _⟩, _⟩
    contradiction
  | case2 g passed hash absent =>
    refine (Pruned.refl g).congr fun other => iff_of_false id ?_
    rintro ⟨⟨start, same, held, _⟩, _⟩
    obtain rfl := Option.some.inj same
    exact get?_eq_none.mp absent held
  | case3 g passed hash shadow found parent here count rest result ih =>
    have held := event?_of_get? found
    have first := linked.remove_pruned hash
    have later := ih (first.linked linked) (falling.pruned first)
      fun mem => (Std.ExtTreeSet.not_mem_empty mem).elim
    rw [result] at later
    have below : (g.remove hash).2.matchingOn matching parent = g.matchingOn matching parent :=
      first.matchingOn_parent falling held
    have whole (other : EventHash) : other ∈ g.matchingOn matching (some hash) ↔
        other = hash ∧ matching shadow.event ∨ other ∈ g.matchingOn matching parent :=
      mem_matchingOn_some held
    refine (first.trans later).congr fun other => ?_
    rw [whole, Set.mem_union, Set.mem_singleton_iff, below, here, and_iff_left rfl]
  | case4 g passed hash shadow found unmatched again =>
    have held := event?_of_get? found
    exact (Int64.lt_irrefl (above again rfl held held)).elim
  | case5 g passed hash shadow found parent unmatched fresh ih =>
    have held := event?_of_get? found
    have whole (other : EventHash) : other ∈ g.matchingOn matching (some hash) ↔
        other = hash ∧ matching shadow.event ∨ other ∈ g.matchingOn matching parent :=
      mem_matchingOn_some held
    refine (ih linked falling ?_).congr fun other => ?_
    · intro earlier start event first mem start_eq startHeld earlierHeld
      have below := falling held start_eq startHeld
      rcases Std.ExtTreeSet.mem_insert.mp mem with same | mem
      · obtain rfl := Std.LawfulEqCmp.compare_eq_iff_eq.mp same
        rw [held] at earlierHeld
        exact Option.some.inj earlierHeld ▸ below
      · exact Int64.lt_trans below (above mem rfl held earlierHeld)
    · rw [whole, or_iff_right fun first => unmatched first.2]

theorem Linked.removeChain_pruned (linked : g.Linked) (falling : g.Falling)
    (matching : ε → Bool) (cursor : Option EventHash) :
    g.Pruned (g.matchingOn matching cursor)
      (g.removeChain (fun shadow => matching shadow.event) ∅ cursor).2 :=
  ShadowGraph.removeChain_pruned matching g ∅ cursor linked falling
    fun mem => (Std.ExtTreeSet.not_mem_empty mem).elim

theorem size_remove {shadow : Shadow ε} (held : g.get? hash = some shadow) :
    (g.remove hash).2.size + 1 = g.size := by
  have mem : hash ∈ g.shadows := Std.ExtTreeMap.mem_iff_isSome_getElem?.mpr
    (Option.isSome_of_eq_some held)
  have smaller := size_remove_lt held
  rw [remove_of_get? held, size_adjust, size_adjust] at smaller ⊢
  change (g.shadows.erase hash).size < g.shadows.size at smaller
  change (g.shadows.erase hash).size + 1 = g.shadows.size
  rw [Std.ExtTreeMap.size_erase, if_pos (Std.ExtTreeMap.mem_iff_contains.mp mem)] at smaller ⊢
  omega

theorem removeChain_count (matching : Shadow ε → Bool) (g : ShadowGraph ε)
    (passed : EventHashSet) (cursor : Option EventHash) :
    (g.removeChain matching passed cursor).1 + (g.removeChain matching passed cursor).2.size =
      g.size := by
  fun_induction g.removeChain matching passed cursor with
  | case1 | case2 | case4 => simp
  | case3 g passed hash shadow found parent here count rest result ih =>
    rw [result] at ih
    have taken := size_remove found
    simp only at ih ⊢
    omega
  | case5 g passed hash shadow found parent unmatched fresh ih => exact ih

end Chain

end Hashgraph.ShadowGraph
