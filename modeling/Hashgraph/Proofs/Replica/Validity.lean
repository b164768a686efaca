import Hashgraph.Proofs.Replica.Run

/-! What holds of a replica whatever events say and whatever commands come. Nothing ties the
generation of an event to those of its parents here, so a sweep may leave expired events behind and
the tips need not be the leaves. Still a sweep removes expired events only and counts them, and
every tip is held. -/

namespace Hashgraph

open DagEvent

variable {ε : Type} [DagEvent ε]

namespace ShadowGraph

variable {g g' : ShadowGraph ε} {watermark : Generation}

/-- What a walk along a chain removes matches, rings among the self-parents included. -/
theorem Linked.removeChain_matching (linked : g.Linked) (matching : ε → Bool)
    (passed : EventHashSet) (cursor : Option EventHash) :
    ∃ gone, g.Pruned gone (g.removeChain (fun shadow => matching shadow.event) passed cursor).2 ∧
      ∀ hash ∈ gone, ∃ event, g.event? hash = some event ∧ matching event := by
  fun_induction g.removeChain (fun shadow => matching shadow.event) passed cursor with
  | case1 g | case2 g | case4 g => exact ⟨∅, .refl g, fun _ mem => mem.elim⟩
  | case3 g passed hash shadow found parent here count rest result ih =>
    have first := linked.remove_pruned hash
    obtain ⟨more, later, matched⟩ := ih (first.linked linked)
    rw [result] at later
    refine ⟨{hash} ∪ more, first.trans later, ?_⟩
    rintro other (rfl | mem)
    · exact ⟨shadow.event, event?_of_get? found, here⟩
    · obtain ⟨event, held, matches'⟩ := matched other mem
      exact ⟨event, (first.event?_eq_some.mp held).2, matches'⟩
  | case5 g passed hash shadow found parent unmatched fresh ih => exact ih linked

/-- A graph from which some expired events are gone. -/
def Trimmed (g : ShadowGraph ε) (watermark : Generation) (g' : ShadowGraph ε) : Prop :=
  ∃ gone, g.Pruned gone g' ∧ gone ⊆ g.expired watermark

namespace Trimmed

theorem refl (g : ShadowGraph ε) (watermark : Generation) : g.Trimmed watermark g :=
  ⟨∅, .refl g, Set.empty_subset _⟩

theorem linked (trimmed : g.Trimmed watermark g') (linked : g.Linked) : g'.Linked := by
  obtain ⟨gone, pruned, -⟩ := trimmed
  exact pruned.linked linked

theorem event?_of_event? (trimmed : g.Trimmed watermark g') {hash : EventHash} {event : ε}
    (held : g'.event? hash = some event) : g.event? hash = some event := by
  obtain ⟨gone, pruned, -⟩ := trimmed
  exact (pruned.event?_eq_some.mp held).2

/-- What is not expired stays. -/
theorem mem_of_unexpired (trimmed : g.Trimmed watermark g') {hash : EventHash} (held : hash ∈ g)
    (unexpired : hash ∉ g.expired watermark) : hash ∈ g' := by
  obtain ⟨gone, pruned, expired⟩ := trimmed
  exact pruned.mem_iff.mpr ⟨fun mem => unexpired (expired mem), held⟩

theorem removeChain (trimmed : g.Trimmed watermark g') (linked : g.Linked)
    (cursor : Option EventHash) :
    g.Trimmed watermark (g'.removeChain (·.isExpired watermark) ∅ cursor).2 := by
  have linked' := trimmed.linked linked
  obtain ⟨gone, pruned, expired⟩ := trimmed
  obtain ⟨more, later, matched⟩ := linked'.removeChain_matching
    (fun event => generation event ≤ watermark) ∅ cursor
  refine ⟨gone ∪ more, pruned.trans later, Set.union_subset expired fun hash mem => ?_⟩
  obtain ⟨event, held, lower⟩ := matched hash mem
  exact (mem_expired (pruned.event?_eq_some.mp held).2).mpr (decide_eq_true_iff.mp lower)

end Trimmed
end ShadowGraph

namespace Sweep

open ShadowGraph

variable {g : ShadowGraph ε} {watermark : Generation} {sweep : Sweep ε}

/-- A tip that is not noted is held and not expired. -/
theorem unexpired_of_not_noted (trimmed : g.Trimmed watermark sweep.graph) (linked : g.Linked)
    {tip : EventHash} (unnoted : tip ∉ (sweep.trim watermark tip).expiredTips) :
    tip ∈ g ∧ tip ∉ g.expired watermark := by
  have next : g.Trimmed watermark (sweep.trim watermark tip).graph := trimmed.removeChain linked _
  have kept : ¬ ((sweep.trim watermark tip).graph.get? tip).all (·.isExpired watermark) := by
    intro expired
    refine unnoted ?_
    change tip ∈ if ((sweep.trim watermark tip).graph.get? tip).all (·.isExpired watermark)
      then sweep.expiredTips ++ [tip] else sweep.expiredTips
    rw [if_pos expired]
    exact List.mem_append_right _ (List.mem_singleton.mpr rfl)
  cases found : (sweep.trim watermark tip).graph.get? tip with
  | none =>
    rw [found] at kept
    exact (kept rfl).elim
  | some shadow =>
    rw [found] at kept
    have held := next.event?_of_event? (event?_of_get? found)
    refine ⟨mem_of_event? held, ?_⟩
    rw [mem_expired held]
    exact fun lower => kept (decide_eq_true lower)

theorem mem_trim_of_mem {tip other : EventHash} (noted : other ∈ sweep.expiredTips) :
    other ∈ (sweep.trim watermark tip).expiredTips := by
  unfold trim
  dsimp only
  split
  · exact List.mem_append_left _ noted
  · exact noted

theorem mem_foldl_trim_of_mem {tips : List EventHash} {other : EventHash}
    (noted : other ∈ sweep.expiredTips) :
    other ∈ (tips.foldl (trim watermark) sweep).expiredTips := by
  induction tips generalizing sweep with
  | nil => exact noted
  | cons tip rest ih => exact ih (mem_trim_of_mem noted)

theorem foldl_trim_trimmed (linked : g.Linked) (tips : List EventHash)
    (trimmed : g.Trimmed watermark sweep.graph) :
    g.Trimmed watermark (tips.foldl (trim watermark) sweep).graph ∧
      ∀ tip ∈ tips, tip ∉ (tips.foldl (trim watermark) sweep).expiredTips →
        tip ∈ g ∧ tip ∉ g.expired watermark := by
  induction tips generalizing sweep with
  | nil => exact ⟨trimmed, fun _ mem => (List.not_mem_nil mem).elim⟩
  | cons first rest ih =>
    have next : g.Trimmed watermark (sweep.trim watermark first).graph :=
      trimmed.removeChain linked _
    obtain ⟨last, spared⟩ := ih next
    refine ⟨last, fun tip mem unnoted => ?_⟩
    rcases List.mem_cons.mp mem with rfl | mem
    · refine unexpired_of_not_noted trimmed linked fun noted => unnoted ?_
      rw [List.foldl_cons]
      exact mem_foldl_trim_of_mem noted
    · exact spared tip mem unnoted

theorem foldl_drop_trimmed (linked : g.Linked) (tips : List EventHash)
    (trimmed : g.Trimmed watermark sweep.graph) :
    g.Trimmed watermark (tips.foldl (drop watermark) sweep).graph := by
  induction tips generalizing sweep with
  | nil => exact trimmed
  | cons tip rest ih => exact ih (trimmed.removeChain linked _)

omit [DagEvent ε] in
/-- Steps that count what they remove count it together. -/
theorem foldl_count (step : Sweep ε → EventHash → Sweep ε)
    (counts : ∀ sweep tip, (step sweep tip).removed + (step sweep tip).graph.size =
      sweep.removed + sweep.graph.size) (tips : List EventHash) (sweep : Sweep ε) :
    (tips.foldl step sweep).removed + (tips.foldl step sweep).graph.size =
      sweep.removed + sweep.graph.size := by
  induction tips generalizing sweep with
  | nil => rfl
  | cons tip rest ih => exact (ih (step sweep tip)).trans (counts sweep tip)

end Sweep

namespace Replica

open ShadowGraph

variable {replica : Replica ε}

theorem expire_count (replica : Replica ε) :
    replica.expire.1 + replica.expire.2.graph.size = replica.graph.size := by
  have trims := Sweep.foldl_count (Sweep.trim replica.watermark) (fun _ => Sweep.trim_count)
    replica.tips (Sweep.mk replica.graph 0 [])
  refine (Sweep.foldl_count (Sweep.drop replica.watermark) (fun _ => Sweep.drop_count) _ _).trans ?_
  exact trims.trans (Nat.zero_add _)

theorem expireTo_count (replica : Replica ε) (watermark : Generation) :
    (replica.expireTo watermark).1 + (replica.expireTo watermark).2.graph.size =
      replica.graph.size := by
  unfold expireTo
  split
  · exact Nat.zero_add _
  · exact (replica.setWatermark watermark).expire_count

/-- A sweep removes expired events only. -/
theorem expire_trimmed (linked : replica.graph.Linked) :
    replica.graph.Trimmed replica.watermark replica.expire.2.graph :=
  Sweep.foldl_drop_trimmed linked _
    (Sweep.foldl_trim_trimmed linked replica.tips (.refl replica.graph replica.watermark)).1

/-- Links are valid, and the tips are held, each listed once. -/
structure Valid (replica : Replica ε) : Prop where
  linked : replica.graph.Linked
  nodup : replica.tips.Nodup
  mem_of_tip : ∀ {tip : EventHash}, tip ∈ replica.tips → tip ∈ replica.graph

theorem Tracked.valid (tracked : replica.Tracked) : replica.Valid where
  linked := tracked.linked
  nodup := tracked.nodup
  mem_of_tip mem := (tracked.mem_tips.mp mem).1

namespace Valid

theorem empty : (∅ : Replica ε).Valid := Tracked.empty.valid

theorem addEvent (valid : replica.Valid) (event : ε) : (replica.addEvent event).2.Valid := by
  by_cases insertable : replica.classify event = .insertable
  · obtain ⟨graph, inserted, added⟩ := addEvent_of_insertable insertable
    rw [added]
    have absent := (classify_eq_insertable.mp insertable).1
    have fresh : hash event ∉ replica.tips := fun mem => absent (valid.mem_of_tip mem)
    refine ⟨valid.linked.insert inserted, nodup_tipsAfter valid.nodup fresh, ?_⟩
    intro tip mem
    rw [mem_insert inserted]
    exact ((mem_tipsAfter valid.nodup fresh).mp mem).1.symm.imp_right valid.mem_of_tip
  · rw [addEvent_of_refused insertable]
    exact valid

/-- A tip that a sweep leaves was held and not expired when its turn came, and such events stay. -/
theorem expire (valid : replica.Valid) : replica.expire.2.Valid := by
  have start : replica.graph.Trimmed replica.watermark (Sweep.mk replica.graph 0 []).graph :=
    .refl replica.graph replica.watermark
  obtain ⟨-, spared⟩ := Sweep.foldl_trim_trimmed valid.linked replica.tips start
  have trimmed := expire_trimmed valid.linked
  have tips : replica.expire.2.tips = (replica.tips.foldl (Sweep.trim replica.watermark)
      { graph := replica.graph }).expiredTips.foldl List.erase replica.tips := rfl
  rw [← List.diff_eq_foldl, valid.nodup.sdiff_eq_filter] at tips
  refine ⟨trimmed.linked valid.linked, tips ▸ valid.nodup.filter _, ?_⟩
  intro tip mem
  rw [tips, List.mem_filter] at mem
  obtain ⟨listed, unnoted⟩ := mem
  obtain ⟨held, unexpired⟩ := spared tip listed (by simpa using unnoted)
  exact trimmed.mem_of_unexpired held unexpired

theorem setWatermark (valid : replica.Valid) (watermark : Generation) :
    (replica.setWatermark watermark).Valid := ⟨valid.linked, valid.nodup, valid.mem_of_tip⟩

theorem expireTo (valid : replica.Valid) (watermark : Generation) :
    (replica.expireTo watermark).2.Valid := by
  unfold Replica.expireTo
  split
  · exact valid
  · exact (valid.setWatermark watermark).expire

theorem perform (valid : replica.Valid) (command : Command ε) : (replica.perform command).Valid := by
  cases command with
  | add event => exact valid.addEvent event
  | expireTo watermark => exact valid.expireTo watermark
  | expire => exact valid.expire
  | setWatermark watermark => exact valid.setWatermark watermark
  | clear => exact .empty

theorem performAll (valid : replica.Valid) (commands : List (Command ε)) :
    (replica.performAll commands).Valid := by
  induction commands generalizing replica with
  | nil => exact valid
  | cons command rest ih => exact ih (valid.perform command)

end Valid
end Replica
end Hashgraph
