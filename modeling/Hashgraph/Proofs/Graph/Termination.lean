import Hashgraph.Proofs.Graph.Pruning

/-! Walks that end by themselves. The removal along a chain is compared with a walk of bounded
length that nothing ends on a ring. Where generations fall along the self-parents, a bound above
the number of held shadows is never met, in the whole graph and in every part of it. -/

namespace Hashgraph.ShadowGraph

variable {ε : Type}

def IsPartOf (part whole : ShadowGraph ε) : Prop :=
  ∀ ⦃hash : EventHash⦄ ⦃event : ε⦄, part.event? hash = some event → whole.event? hash = some event

theorem IsPartOf.refl (g : ShadowGraph ε) : g.IsPartOf g := fun _ _ held => held

variable [DagEvent ε]

/-- The removal along a chain in at most `limit` steps, and none if they do not suffice. -/
def removeChainWithin (matching : Shadow ε → Bool) :
    Nat → ShadowGraph ε → Option EventHash → Option (Nat × ShadowGraph ε)
  | 0, _, _ => none
  | _ + 1, g, none => some (0, g)
  | limit + 1, g, some hash =>
    match g.get? hash with
    | none => some (0, g)
    | some shadow =>
      let parent := shadow.selfParent.map Descriptor.hash
      if matching shadow then
        (removeChainWithin matching limit (g.remove hash).2 parent).map fun (count, rest) =>
          (count + 1, rest)
      else removeChainWithin matching limit g parent

def countBelow (g : ShadowGraph ε) (generation : Generation) : Nat :=
  g.hashes.countP fun hash =>
    (g.event? hash).any fun event => DagEvent.generation event < generation

variable {g whole : ShadowGraph ε} {matching : Shadow ε → Bool}

section Steps

variable {passed : EventHashSet} {hash : EventHash} {shadow : Shadow ε}

@[simp] theorem removeChain_none : g.removeChain matching passed none = (0, g) := by
  rw [removeChain]

theorem removeChain_held (held : g.get? hash = some shadow) :
    g.removeChain matching passed (some hash) =
      if matching shadow then
        (((g.remove hash).2.removeChain matching ∅ (shadow.selfParent.map Descriptor.hash)).1 + 1,
          ((g.remove hash).2.removeChain matching ∅ (shadow.selfParent.map Descriptor.hash)).2)
      else if hash ∈ passed then (0, g)
      else g.removeChain matching (passed.insert hash) (shadow.selfParent.map Descriptor.hash) := by
  rw [removeChain]
  split
  · rename_i absent
    rw [held] at absent
    contradiction
  · rename_i other found
    rw [held] at found
    cases found
    rfl

theorem removeChain_matching (found : g.get? hash = some shadow) (here : matching shadow) :
    g.removeChain matching passed (some hash) =
      (((g.remove hash).2.removeChain matching ∅ (shadow.selfParent.map Descriptor.hash)).1 + 1,
        ((g.remove hash).2.removeChain matching ∅ (shadow.selfParent.map Descriptor.hash)).2) := by
  rw [removeChain_held found, if_pos here]

theorem removeChain_unmatched (found : g.get? hash = some shadow) (stays : ¬ matching shadow)
    (fresh : hash ∉ passed) : g.removeChain matching passed (some hash) =
      g.removeChain matching (passed.insert hash) (shadow.selfParent.map Descriptor.hash) := by
  rw [removeChain_held found, if_neg stays, if_neg fresh]

end Steps

/-- On an event that names itself no bound suffices, unless the event is removed. -/
theorem removeChainWithin_loop {hash : EventHash} {shadow : Shadow ε}
    (held : g.get? hash = some shadow) (loops : shadow.selfParent.map Descriptor.hash = some hash)
    (stays : ¬ matching shadow) (limit : Nat) :
    g.removeChainWithin matching limit (some hash) = none := by
  induction limit with
  | zero => rfl
  | succ limit ih =>
    simp only [removeChainWithin, held, if_neg stays, loops]
    exact ih

theorem countBelow_lt {event : ε} {hash : EventHash} (held : g.event? hash = some event)
    {generation : Generation} (below : DagEvent.generation event < generation) :
    g.countBelow (DagEvent.generation event) < g.countBelow generation := by
  have mem : hash ∈ g.hashes := mem_hashes.mpr (mem_of_event? held)
  refine countP_lt_countP ?_ mem ?_ ?_
  · intro other counted
    obtain ⟨older, found, lower⟩ := (Option.any_eq_true _ _).mp counted
    rw [decide_eq_true_iff] at lower
    exact (Option.any_eq_true _ _).mpr ⟨older, found, decide_eq_true (Int64.lt_trans lower below)⟩
  · simp [held]
  · simp [held, below]

theorem countBelow_lt_size {event : ε} {hash : EventHash} (held : g.event? hash = some event) :
    g.countBelow (DagEvent.generation event) < g.size := by
  have total : g.hashes.countP (fun _ => true) = g.size := by
    rw [List.countP_true]
    exact Std.ExtTreeMap.length_keys
  have mem : hash ∈ g.hashes := mem_hashes.mpr (mem_of_event? held)
  rw [← total]
  refine countP_lt_countP ?_ mem ?_ rfl
  · exact fun _ _ => rfl
  · simp [held]

theorem IsPartOf.remove (part : g.IsPartOf whole) (hash : EventHash) :
    (g.remove hash).2.IsPartOf whole := by
  intro other event held
  rw [event?_remove] at held
  split at held
  · contradiction
  · exact part held

theorem IsPartOf.removeChain (part : g.IsPartOf whole) (matching : Shadow ε → Bool)
    (passed : EventHashSet) (cursor : Option EventHash) :
    (g.removeChain matching passed cursor).2.IsPartOf whole := by
  fun_induction g.removeChain matching passed cursor with
  | case1 | case2 | case4 => exact part
  | case3 g passed hash shadow found parent here count rest result ih =>
    rw [result] at ih
    exact ih (part.remove hash)
  | case5 g passed hash shadow found parent unmatched fresh ih => exact ih part

/-- Each step of the walk leaves fewer held events below it, so that the bounded walk gets to the
end of the chain. The shadows passed lie above the cursor, so that it never comes back to one. -/
theorem removeChainWithin_eq_of_passed (falling : whole.Falling) (matching : Shadow ε → Bool)
    (g : ShadowGraph ε) (passed : EventHashSet) (cursor : Option EventHash)
    (part : g.IsPartOf whole)
    (above : ∀ {hash start : EventHash} {event first : ε}, hash ∈ passed → cursor = some start →
      whole.event? start = some first → whole.event? hash = some event →
      DagEvent.generation first < DagEvent.generation event)
    {limit : Nat} (positive : 0 < limit)
    (enough : ∀ {start : EventHash} {first : ε}, cursor = some start →
      g.event? start = some first → whole.countBelow (DagEvent.generation first) + 1 < limit) :
    g.removeChainWithin matching limit cursor = some (g.removeChain matching passed cursor) := by
  fun_induction g.removeChain matching passed cursor generalizing limit with
  | case1 g passed =>
    obtain ⟨limit, rfl⟩ := Nat.exists_eq_add_one.mpr positive
    rfl
  | case2 g passed hash absent =>
    obtain ⟨limit, rfl⟩ := Nat.exists_eq_add_one.mpr positive
    simp only [removeChainWithin, absent]
  | case3 g passed hash shadow found parent here count rest result ih =>
    obtain ⟨limit, rfl⟩ := Nat.exists_eq_add_one.mpr positive
    have held := event?_of_get? found
    have steps := enough rfl held
    have later : (g.remove hash).2.removeChainWithin matching limit parent = some (count, rest) := by
      rw [← result]
      refine ih (part.remove hash) (fun mem => (Std.ExtTreeSet.not_mem_empty mem).elim) (by omega) ?_
      intro start first names firstHeld
      have firstFound := part.remove hash firstHeld
      have fewer := countBelow_lt firstFound (falling (part held) names firstFound)
      omega
    simp only [removeChainWithin, found, if_pos here]
    rw [later, Option.map_some]
  | case4 g passed hash shadow found unmatched again =>
    have held := part (event?_of_get? found)
    exact (Int64.lt_irrefl (above again rfl held held)).elim
  | case5 g passed hash shadow found parent unmatched fresh ih =>
    obtain ⟨limit, rfl⟩ := Nat.exists_eq_add_one.mpr positive
    have held := event?_of_get? found
    have steps := enough rfl held
    simp only [removeChainWithin, found, if_neg unmatched]
    refine ih part ?_ (by omega) ?_
    · intro earlier start event first mem names firstFound earlierHeld
      have below := falling (part held) names firstFound
      rcases Std.ExtTreeSet.mem_insert.mp mem with same | mem
      · obtain rfl := Std.LawfulEqCmp.compare_eq_iff_eq.mp same
        rw [part held] at earlierHeld
        cases earlierHeld
        exact below
      · exact Int64.lt_trans below (above mem rfl (part held) earlierHeld)
    · intro start first names firstHeld
      have firstFound := part firstHeld
      have fewer := countBelow_lt firstFound (falling (part held) names firstFound)
      omega

/-- A bound above the number of held shadows is never met. -/
theorem IsPartOf.removeChainWithin_eq (part : g.IsPartOf whole) (falling : whole.Falling)
    (matching : Shadow ε → Bool) (cursor : Option EventHash) {limit : Nat}
    (large : whole.size < limit) :
    g.removeChainWithin matching limit cursor = some (g.removeChain matching ∅ cursor) := by
  apply removeChainWithin_eq_of_passed falling matching g ∅ cursor part
  · exact fun mem => (Std.ExtTreeSet.not_mem_empty mem).elim
  · omega
  · intro start first _ held
    have fewer := countBelow_lt_size (part held)
    omega

end Hashgraph.ShadowGraph
