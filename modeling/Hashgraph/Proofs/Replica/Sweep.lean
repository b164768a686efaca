import Mathlib.Data.List.Nodup
import Hashgraph.Proofs.Graph.Pruning
import Hashgraph.Replica.Expiration

/-! A sweep is a filter. It walks only the chains below the tips, but every held event lies on such
a chain: from an event one can climb along recorded self-children up to a leaf, and the tips are
the leaves. What the walks so far have removed is always closed under held self-parents, so a walk
that meets a gap has nothing left to do below it. -/

namespace Hashgraph

variable {ε : Type} [DagEvent ε]

namespace ShadowGraph

def expires (g : ShadowGraph ε) (watermark : Generation) (hash : EventHash) : Bool :=
  (g.event? hash).any fun event => DagEvent.generation event ≤ watermark

def expired (g : ShadowGraph ε) (watermark : Generation) : Set EventHash :=
  {hash | g.expires watermark hash}

variable {g g' : ShadowGraph ε} {watermark : Generation} {gone : Set EventHash}

theorem mem_expired {hash : EventHash} {event : ε} (held : g.event? hash = some event) :
    hash ∈ g.expired watermark ↔ DagEvent.generation event ≤ watermark := by
  simp [expired, expires, held]

theorem mem_of_mem_expired {hash : EventHash} (expired : hash ∈ g.expired watermark) :
    hash ∈ g := by
  by_contra absent
  simp [ShadowGraph.expired, expires, event?_eq_none.mpr absent] at expired

theorem Falling.expired_of_selfParent (falling : g.Falling) {child parent : EventHash}
    (expired : child ∈ g.expired watermark) (step : g.SelfParent child parent) :
    parent ∈ g.expired watermark := by
  obtain ⟨parentHeld, event, held, names⟩ := step
  obtain ⟨older, found⟩ := mem_iff_event?.mp parentHeld
  rw [mem_expired held] at expired
  rw [mem_expired found]
  exact Int64.le_of_lt (Int64.lt_of_lt_of_le (falling held names found) expired)

/-- Every held event lies on the chain below some leaf. -/
theorem Linked.exists_leaf_above (linked : g.Linked) (falling : g.Falling) {hash : EventHash}
    (held : hash ∈ g) : ∃ leaf, g.IsLeaf leaf ∧ Relation.ReflTransGen g.SelfParent leaf hash := by
  apply linked.climb_induction falling _ held
  intro hash held above
  by_cases childless : ∀ child, ¬ g.IsChild .self hash child
  · exact ⟨hash, ⟨held, childless⟩, .refl⟩
  · push Not at childless
    obtain ⟨child, recorded⟩ := childless
    obtain ⟨younger, found, names⟩ := linked.child_names recorded
    obtain ⟨leaf, isLeaf, path⟩ := above child recorded
    exact ⟨leaf, isLeaf, path.tail ⟨held, younger, found, names⟩⟩

/-- A sweep strikes no self-child off at a survivor. -/
theorem Linked.isChild_pruned (linked : g.Linked) (falling : g.Falling)
    (pruned : g.Pruned (g.expired watermark) g') {parent child : EventHash} :
    g'.IsChild .self parent child ↔
      parent ∉ g.expired watermark ∧ g.IsChild .self parent child := by
  rw [pruned.isChild_iff]
  refine and_congr_right fun kept => and_iff_right_of_imp fun recorded childExpired => kept ?_
  obtain ⟨event, held, names⟩ := linked.child_names recorded
  exact falling.expired_of_selfParent childExpired ⟨recorded.mem, event, held, names⟩

theorem Linked.isLeaf_pruned (linked : g.Linked) (falling : g.Falling)
    (pruned : g.Pruned (g.expired watermark) g') {hash : EventHash} :
    g'.IsLeaf hash ↔ hash ∉ g.expired watermark ∧ g.IsLeaf hash := by
  simp only [IsLeaf, pruned.mem_iff, linked.isChild_pruned falling pruned]
  constructor
  · rintro ⟨⟨kept, held⟩, childless⟩
    exact ⟨kept, held, fun child recorded => childless child ⟨kept, recorded⟩⟩
  · rintro ⟨kept, held, childless⟩
    exact ⟨⟨kept, held⟩, fun child recorded => childless child recorded.2⟩

/-- A graph from which expired events are gone, and with each of them all that lay below it. -/
structure Cleared (g : ShadowGraph ε) (watermark : Generation) (gone : Set EventHash)
    (g' : ShadowGraph ε) : Prop where
  pruned : g.Pruned gone g'
  expired : gone ⊆ g.expired watermark
  closed : ∀ {child parent : EventHash}, child ∈ gone → g.SelfParent child parent → parent ∈ gone

namespace Cleared

theorem refl (g : ShadowGraph ε) (watermark : Generation) : g.Cleared watermark ∅ g where
  pruned := .refl g
  expired := Set.empty_subset _
  closed mem := mem.elim

theorem closed_path (cleared : g.Cleared watermark gone g') {start hash : EventHash}
    (mem : start ∈ gone) (path : Relation.ReflTransGen g.SelfParent start hash) : hash ∈ gone := by
  induction path with
  | refl => exact mem
  | tail _ step ih => exact cleared.closed ih step

theorem removeChain (cleared : g.Cleared watermark gone g') (linked : g.Linked)
    (falling : g.Falling) (cursor : Option EventHash) :
    ∃ more, g.Cleared watermark more (g'.removeChain (·.isExpired watermark) ∅ cursor).2 ∧
      gone ⊆ more ∧ ∀ {start hash : EventHash}, cursor = some start → start ∈ g →
        Relation.ReflTransGen g.SelfParent start hash → hash ∈ g.expired watermark →
        hash ∈ more := by
  let matching (event : ε) : Bool := DagEvent.generation event ≤ watermark
  have matching_iff {hash : EventHash} : hash ∈ g'.matchingOn matching cursor ↔
      g'.OnChain cursor hash ∧ hash ∈ g.expired watermark := by
    refine and_congr_right fun on => ?_
    obtain ⟨event, held⟩ := mem_iff_event?.mp on.mem
    rw [mem_expired (cleared.pruned.event?_eq_some.mp held).2]
    simp [held, matching]
  have walked := (cleared.pruned.linked linked).removeChain_pruned
    (falling.pruned cleared.pruned) matching cursor
  have member {start hash : EventHash} (same : cursor = some start) (held : start ∈ g)
      (path : Relation.ReflTransGen g.SelfParent start hash) :
      hash ∈ gone ∨ g'.OnChain cursor hash := by
    induction path with
    | refl =>
      by_cases mem : start ∈ gone
      · exact .inl mem
      · exact .inr ⟨start, same, cleared.pruned.mem_iff.mpr ⟨mem, held⟩, .refl⟩
    | @tail child parent _ step ih =>
      rcases ih with mem | on
      · exact .inl (cleared.closed mem step)
      · by_cases mem : parent ∈ gone
        · exact .inl mem
        · have kept := (cleared.pruned.mem_iff.mp on.mem).1
          obtain ⟨first, cursor_eq, firstHeld, path⟩ := on
          exact .inr ⟨first, cursor_eq, firstHeld,
            path.tail (cleared.pruned.selfParent_iff.mpr ⟨kept, mem, step⟩)⟩
  refine ⟨_, ⟨cleared.pruned.trans walked, ?_, ?_⟩, Set.subset_union_left, ?_⟩
  · rintro hash (mem | mem)
    · exact cleared.expired mem
    · exact (matching_iff.mp mem).2
  · rintro child parent (mem | mem) step
    · exact .inl (cleared.closed mem step)
    · obtain ⟨⟨start, same, held, path⟩, expired⟩ := matching_iff.mp mem
      have wider : ∀ child parent, g'.SelfParent child parent → g.SelfParent child parent :=
        fun _ _ step => (cleared.pruned.selfParent_iff.mp step).2.2
      have below := (Relation.ReflTransGen.mono wider _ _ path).tail step
      rcases member same (cleared.pruned.mem_iff.mp held).2 below with mem | on
      · exact .inl mem
      · exact .inr (matching_iff.mpr ⟨on, falling.expired_of_selfParent expired step⟩)
  · intro start hash same held path expired
    rcases member same held path with mem | on
    · exact .inl mem
    · exact .inr (matching_iff.mpr ⟨on, expired⟩)

end Cleared
end ShadowGraph

namespace Sweep

open ShadowGraph

variable {g : ShadowGraph ε} {watermark : Generation} {gone : Set EventHash} {sweep : Sweep ε}

theorem trim_count (tip : EventHash) :
    (sweep.trim watermark tip).removed + (sweep.trim watermark tip).graph.size =
      sweep.removed + sweep.graph.size := by
  simp only [trim, removeStrictSelfAncestry, Nat.add_assoc, removeChain_count]

theorem drop_count (tip : EventHash) :
    (sweep.drop watermark tip).removed + (sweep.drop watermark tip).graph.size =
      sweep.removed + sweep.graph.size := by
  simp only [drop, removeSelfAncestry, Nat.add_assoc, removeChain_count]

/-- Trimming a tip clears what is expired strictly below it. -/
theorem trim_cleared (cleared : g.Cleared watermark gone sweep.graph) (linked : g.Linked)
    (falling : g.Falling) (tip : EventHash) :
    ∃ more, g.Cleared watermark more (sweep.trim watermark tip).graph ∧ gone ⊆ more ∧
      ∀ {hash : EventHash}, Relation.TransGen g.SelfParent tip hash →
        hash ∈ g.expired watermark → hash ∈ more := by
  obtain ⟨more, next, grows, reaches⟩ := cleared.removeChain linked falling
    ((sweep.graph.get? tip).bind fun shadow => shadow.selfParent.map Descriptor.hash)
  refine ⟨more, next, grows, ?_⟩
  intro hash path expired
  obtain ⟨parent, step, rest⟩ := Relation.TransGen.head'_iff.mp path
  by_cases mem : tip ∈ gone
  · exact grows (cleared.closed_path (cleared.closed mem step) rest)
  · obtain ⟨parentHeld, event, held, names⟩ := step
    rw [← cleared.pruned.event?_kept mem] at held
    obtain ⟨shadow, found, rfl⟩ := exists_shadow held
    refine reaches ?_ parentHeld rest expired
    rw [found]
    exact names

/-- Trimming a held tip notes it exactly when it is expired. -/
theorem trim_expiredTips (cleared : g.Cleared watermark gone sweep.graph) (linked : g.Linked)
    (falling : g.Falling) {tip : EventHash} (held : tip ∈ g) :
    (sweep.trim watermark tip).expiredTips =
      sweep.expiredTips ++ [tip].filter (g.expires watermark) := by
  obtain ⟨more, next, -, -⟩ := trim_cleared cleared linked falling tip
  have noted : ((sweep.trim watermark tip).graph.get? tip).all (·.isExpired watermark) =
      g.expires watermark tip := by
    rw [Bool.eq_iff_iff]
    by_cases mem : tip ∈ more
    · rw [get?_eq_none.mpr (event?_eq_none.mp (next.pruned.event?_gone mem))]
      exact iff_of_true rfl (next.expired mem)
    · obtain ⟨event, found⟩ := mem_iff_event?.mp held
      have kept := (next.pruned.event?_kept mem).trans found
      obtain ⟨shadow, shadowFound, rfl⟩ := exists_shadow kept
      rw [shadowFound]
      exact decide_eq_true_iff.trans (mem_expired found).symm
  change (if ((sweep.trim watermark tip).graph.get? tip).all (·.isExpired watermark)
    then sweep.expiredTips ++ [tip] else sweep.expiredTips) = _
  rw [noted]
  cases expired : g.expires watermark tip <;> simp [expired]

/-- Dropping a tip clears it, if it is expired, and what is expired below it. -/
theorem drop_cleared (cleared : g.Cleared watermark gone sweep.graph) (linked : g.Linked)
    (falling : g.Falling) (tip : EventHash) :
    ∃ more, g.Cleared watermark more (sweep.drop watermark tip).graph ∧ gone ⊆ more ∧
      ∀ {hash : EventHash}, tip ∈ g → Relation.ReflTransGen g.SelfParent tip hash →
        hash ∈ g.expired watermark → hash ∈ more := by
  obtain ⟨more, next, grows, reaches⟩ := cleared.removeChain linked falling (some tip)
  exact ⟨more, next, grows, reaches rfl⟩

theorem foldl_trim (linked : g.Linked) (falling : g.Falling) (tips : List EventHash)
    (held : ∀ tip ∈ tips, tip ∈ g) (cleared : g.Cleared watermark gone sweep.graph) :
    ∃ more, g.Cleared watermark more (tips.foldl (trim watermark) sweep).graph ∧ gone ⊆ more ∧
      (∀ tip ∈ tips, ∀ {hash : EventHash}, Relation.TransGen g.SelfParent tip hash →
        hash ∈ g.expired watermark → hash ∈ more) ∧
      (tips.foldl (trim watermark) sweep).expiredTips =
        sweep.expiredTips ++ tips.filter (g.expires watermark) ∧
      (tips.foldl (trim watermark) sweep).removed + (tips.foldl (trim watermark) sweep).graph.size =
        sweep.removed + sweep.graph.size := by
  induction tips generalizing sweep gone with
  | nil => exact ⟨gone, cleared, subset_rfl, by simp, by simp, rfl⟩
  | cons tip rest ih =>
    obtain ⟨middle, next, grows, reaches⟩ := trim_cleared cleared linked falling tip
    have noted := trim_expiredTips cleared linked falling (held tip List.mem_cons_self)
    obtain ⟨more, last, growsOn, reachesOn, notedOn, count⟩ :=
      ih (fun other mem => held other (List.mem_cons_of_mem _ mem)) next
    refine ⟨more, last, grows.trans growsOn, ?_, ?_, count.trans (trim_count tip)⟩
    · intro other mem hash path expired
      rcases List.mem_cons.mp mem with rfl | mem
      · exact growsOn (reaches path expired)
      · exact reachesOn other mem path expired
    · rw [List.foldl_cons, notedOn, noted, List.append_assoc, ← List.filter_append]
      rfl

theorem foldl_drop (linked : g.Linked) (falling : g.Falling) (tips : List EventHash)
    (cleared : g.Cleared watermark gone sweep.graph) :
    ∃ more, g.Cleared watermark more (tips.foldl (drop watermark) sweep).graph ∧ gone ⊆ more ∧
      (∀ tip ∈ tips, ∀ {hash : EventHash}, tip ∈ g → Relation.ReflTransGen g.SelfParent tip hash →
        hash ∈ g.expired watermark → hash ∈ more) ∧
      (tips.foldl (drop watermark) sweep).removed + (tips.foldl (drop watermark) sweep).graph.size =
        sweep.removed + sweep.graph.size := by
  induction tips generalizing sweep gone with
  | nil => exact ⟨gone, cleared, subset_rfl, by simp, rfl⟩
  | cons tip rest ih =>
    obtain ⟨middle, next, grows, reaches⟩ := drop_cleared cleared linked falling tip
    obtain ⟨more, last, growsOn, reachesOn, count⟩ := ih next
    refine ⟨more, last, grows.trans growsOn, ?_, count.trans (drop_count tip)⟩
    intro other mem hash held path expired
    rcases List.mem_cons.mp mem with rfl | mem
    · exact growsOn (reaches held path expired)
    · exact reachesOn other mem held path expired

end Sweep

namespace Replica

open ShadowGraph

/-- The tips are the leaves of a linked graph, each listed once. -/
structure Tracked (replica : Replica ε) : Prop where
  linked : replica.graph.Linked
  nodup : replica.tips.Nodup
  mem_tips : ∀ {hash : EventHash}, hash ∈ replica.tips ↔ replica.graph.IsLeaf hash

variable {replica : Replica ε}

/-- A sweep removes exactly the expired events, keeps the tips that are not expired in their order
and counts what it removes. -/
theorem Tracked.expire (tracked : replica.Tracked) (falling : replica.graph.Falling) :
    replica.graph.Pruned (replica.graph.expired replica.watermark) replica.expire.2.graph ∧
      replica.expire.2.tips =
        replica.tips.filter (fun tip => !replica.graph.expires replica.watermark tip) ∧
      replica.expire.1 + replica.expire.2.graph.size = replica.graph.size := by
  have held : ∀ tip ∈ replica.tips, tip ∈ replica.graph :=
    fun tip mem => (tracked.mem_tips.mp mem).1
  have start : replica.graph.Cleared replica.watermark ∅
      (Sweep.mk replica.graph 0 []).graph := .refl replica.graph replica.watermark
  obtain ⟨trimmed, first, -, below, noted, count⟩ :=
    Sweep.foldl_trim tracked.linked falling replica.tips held start
  obtain ⟨dropped, last, grows, above, countOn⟩ := Sweep.foldl_drop tracked.linked falling
    (replica.tips.filter (replica.graph.expires replica.watermark)) first
  rw [List.nil_append] at noted
  rw [← noted] at last countOn
  refine ⟨last.pruned.congr fun hash => ⟨fun gone => last.expired gone, ?_⟩, ?_, ?_⟩
  · intro expired
    obtain ⟨leaf, isLeaf, path⟩ :=
      tracked.linked.exists_leaf_above falling (mem_of_mem_expired expired)
    have tip := tracked.mem_tips.mpr isLeaf
    rcases Relation.reflTransGen_iff_eq_or_transGen.mp path with rfl | strict
    · exact above hash (List.mem_filter.mpr ⟨tip, expired⟩) isLeaf.1 .refl expired
    · exact grows (below leaf tip strict expired)
  · change (List.foldl (Sweep.trim replica.watermark) _ replica.tips).expiredTips.foldl List.erase
      replica.tips = _
    rw [noted, ← List.diff_eq_foldl, tracked.nodup.sdiff_eq_filter]
    refine List.filter_congr fun tip mem => ?_
    simp [mem]
  · exact countOn.trans (count.trans (Nat.zero_add _))

theorem Tracked.expire_tracked (tracked : replica.Tracked) (falling : replica.graph.Falling) :
    replica.expire.2.Tracked := by
  obtain ⟨pruned, tips, -⟩ := tracked.expire falling
  refine ⟨pruned.linked tracked.linked, tips ▸ tracked.nodup.filter _, ?_⟩
  intro hash
  rw [tips, List.mem_filter, tracked.mem_tips, tracked.linked.isLeaf_pruned falling pruned,
    and_comm, expired, Set.mem_ofPred_eq, Bool.not_eq_true', Bool.not_eq_true]

end Replica
end Hashgraph
