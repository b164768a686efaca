import Hashgraph.Proofs.Graph.Termination
import Hashgraph.Proofs.Replica.Signals

/-! Two events and one sweep that break a replica. Either the younger event declares its parent to
be higher than it is, and outlives it without being entitled to; or it lies below its parent, and
the sweep takes the tip and spares what is below it. -/

namespace Hashgraph

open DagEvent ShadowGraph

namespace Replica

variable {ε : Type} [DagEvent ε] {replica : Replica ε} {older younger : ε}
  {declared watermark : Generation}

theorem add_rootless (rootless : ∀ line, parent line older = none)
    (lives : Generation.nothingExpired < generation older) :
    ∃ graph, (∅ : ShadowGraph ε).insert older = .ok graph ∧
      (∅ : Replica ε).perform (.add older) = { graph, tips := [hash older] } := by
  have insertable : (∅ : Replica ε).classify older = .insertable := by
    refine classify_eq_insertable.mpr ⟨not_mem_empty _, Int64.not_le.mpr lives, ?_⟩
    intro line descriptor named
    rw [rootless] at named
    contradiction
  obtain ⟨graph, inserted, added⟩ := addEvent_of_insertable insertable
  have alone : tipsAfter [] older = [hash older] := by
    have none : selfParent older = none := rootless .self
    simp only [tipsAfter, none]
    rfl
  refine ⟨graph, inserted, ?_⟩
  rw [← alone]
  exact congrArg Prod.snd added

def afterBoth (older younger : ε) : Replica ε :=
  ((∅ : Replica ε).perform (.add older)).perform (.add younger)

/-- The younger event replaces the older one as the tip, and it is its only child. -/
theorem afterBoth_spec (extension : IsExtension older younger declared)
    (olderLives : Generation.nothingExpired < generation older)
    (youngerLives : Generation.nothingExpired < generation younger) :
    (afterBoth older younger).tips = [hash younger] ∧
      (afterBoth older younger).graph.event? (hash older) = some older ∧
      (afterBoth older younger).graph.event? (hash younger) = some younger ∧
      ∀ child, (afterBoth older younger).graph.IsChild .self (hash older) child →
        child = hash younger := by
  obtain ⟨one, olderIn, first⟩ := add_rootless extension.rootless olderLives
  have mem_one {other : EventHash} : other ∈ one ↔ other = hash older :=
    (mem_insert olderIn).trans (or_iff_left (not_mem_empty other))
  have insertable : ({ graph := one, tips := [hash older] } : Replica ε).classify younger =
      .insertable := by
    refine classify_eq_insertable.mpr ⟨?_, Int64.not_le.mpr youngerLives, ?_⟩
    · exact fun mem => extension.differ (mem_one.mp mem).symm
    · intro line descriptor named
      cases line with
      | self =>
        rw [extension.named] at named
        cases named
        exact .inl (mem_one.mpr rfl)
      | other =>
        rw [extension.single] at named
        contradiction
  obtain ⟨both, youngerIn, second⟩ := addEvent_of_insertable insertable
  have replaced : tipsAfter [hash older] younger = [hash younger] := by
    have named : selfParent younger = some ⟨hash older, declared⟩ := extension.named
    simp [tipsAfter, named, addTip, extension.differ.symm]
  have whole : afterBoth older younger = { graph := both, tips := [hash younger] } := by
    rw [← replaced, afterBoth, first]
    exact congrArg Prod.snd second
  rw [whole]
  refine ⟨rfl, ?_, ?_, ?_⟩
  · rw [event?_insert youngerIn, if_neg extension.differ.symm, event?_insert olderIn, if_pos rfl]
  · rw [event?_insert youngerIn, if_pos rfl]
  · intro child recorded
    rcases (isChild_insert youngerIn).mp recorded with earlier | ⟨-, same, -⟩
    · rcases (isChild_insert olderIn).mp earlier with none | ⟨held, -⟩
      · exact (not_isChild_empty none).elim
      · exact (not_mem_empty _ held).elim
    · exact same

theorem expireTo_afterBoth (expires : Generation.nothingExpired < watermark) :
    (afterBoth older younger).expireTo watermark =
      ((afterBoth older younger).setWatermark watermark).expire := by
  have nothing : (afterBoth older younger).watermark = Generation.nothingExpired := by
    simp only [afterBoth, perform, addEvent_watermark]
    rfl
  rw [expireTo, nothing, if_neg]
  exact fun same => Int64.lt_irrefl (same ▸ expires)

/-- A sweep takes the parent and leaves the child, which by its own word misses a parent that is
not expired. -/
theorem not_isConsistent_of_overdeclared (extension : IsExtension older younger declared)
    (lives : Generation.nothingExpired < generation older)
    (expires : generation older ≤ watermark) (spares : watermark < generation younger)
    (exceeds : watermark < declared) :
    ¬ ((afterBoth older younger).expireTo watermark).2.IsConsistent := by
  have raises := Int64.lt_of_lt_of_le lives expires
  have ascending : IsAscending {event | event ∈ [older, younger]} :=
    extension.isAscending (Int64.lt_of_le_of_lt expires spares)
  obtain ⟨-, olderHeld, youngerHeld, -⟩ :=
    afterBoth_spec extension lives (Int64.lt_trans raises spares)
  have gathered : Gathered {event | event ∈ [older, younger]} (afterBoth older younger) := by
    have first := (Gathered.empty (ε := ε)).addEvent ascending (List.mem_cons_self)
    exact first.addEvent ascending (List.mem_cons_of_mem _ List.mem_cons_self)
  have moved := gathered.setWatermark watermark
  have falling : (afterBoth older younger).graph.Falling := gathered.falling ascending
  obtain ⟨pruned, -, -⟩ := moved.toTracked.expire falling
  rw [expireTo_afterBoth raises]
  intro consistent
  have gone : hash older ∈ (afterBoth older younger).graph.expired watermark :=
    (mem_expired olderHeld).mpr expires
  have kept : hash younger ∉ (afterBoth older younger).graph.expired watermark :=
    fun mem => Int64.not_le.mpr spares ((mem_expired youngerHeld).mp mem)
  obtain ⟨shadow, found, same⟩ := exists_shadow ((pruned.event?_kept kept).trans youngerHeld)
  have listed : ⟨hash older, declared⟩ ∈ shadow.parents := by
    have named : selfParent younger = some ⟨hash older, declared⟩ := extension.named
    simp [Shadow.parents, Shadow.selfParent, same, named]
  have missing := event?_eq_none.mp (pruned.event?_gone gone)
  exact Int64.not_le.mpr exceeds (consistent.missing_expired found _ listed missing)

theorem expire_of_descending {tip root : Shadow ε} {tipHash rootHash : EventHash}
    (tips : replica.tips = [tipHash]) (tipFound : replica.graph.get? tipHash = some tip)
    (names : tip.selfParent.map Descriptor.hash = some rootHash)
    (rootFound : replica.graph.get? rootHash = some root) (rootless : root.selfParent = none)
    (expires : tip.isExpired replica.watermark) (spares : ¬ root.isExpired replica.watermark)
    (differ : tipHash ≠ rootHash) :
    replica.expire.2 = { replica with graph := (replica.graph.remove tipHash).2, tips := [] } := by
  have trimmed : Sweep.trim replica.watermark { graph := replica.graph } tipHash =
      { graph := replica.graph, expiredTips := [tipHash] } := by
    have walk : replica.graph.removeStrictSelfAncestry tipHash (·.isExpired replica.watermark) =
        (0, replica.graph) := by
      rw [removeStrictSelfAncestry, tipFound, Option.bind_some, names,
        removeChain_unmatched rootFound spares Std.ExtTreeSet.not_mem_empty, rootless]
      exact removeChain_none
    simp only [Sweep.trim, walk, tipFound, Option.all_some, expires, if_true]
    rfl
  have dropped : (Sweep.drop replica.watermark
      { graph := replica.graph, expiredTips := [tipHash] } tipHash).graph =
        (replica.graph.remove tipHash).2 := by
    have kept : (replica.graph.remove tipHash).2.event? rootHash = some root.event := by
      rw [event?_remove, if_neg differ]
      exact event?_of_get? rootFound
    obtain ⟨left, leftFound, same⟩ := exists_shadow kept
    have leftSpared : ¬ left.isExpired replica.watermark := by
      rw [Shadow.isExpired, Shadow.generation, same]
      exact spares
    have leftRootless : left.selfParent = none := by
      rw [Shadow.selfParent, same]
      exact rootless
    simp only [Sweep.drop, removeSelfAncestry]
    rw [removeChain_matching tipFound expires, names,
      removeChain_unmatched leftFound leftSpared Std.ExtTreeSet.not_mem_empty, leftRootless,
      Option.map_none, removeChain_none]
  simp only [expire, tips, List.foldl_cons, List.foldl_nil, trimmed, dropped, List.erase_cons_head]

/-- A sweep takes the tip and spares its parent, which then has no children and is no tip. -/
theorem not_isConsistent_of_descending (extension : IsExtension older younger declared)
    (lives : Generation.nothingExpired < generation younger)
    (expires : generation younger ≤ watermark) (spares : watermark < generation older) :
    ¬ ((afterBoth older younger).expireTo watermark).2.IsConsistent := by
  have raises := Int64.lt_of_lt_of_le lives expires
  obtain ⟨tips, olderHeld, youngerHeld, single⟩ :=
    afterBoth_spec extension (Int64.lt_trans raises spares) lives
  obtain ⟨tip, tipFound, rfl⟩ := exists_shadow youngerHeld
  obtain ⟨root, rootFound, rfl⟩ := exists_shadow olderHeld
  have names : tip.selfParent.map Descriptor.hash = some (hash root.event) :=
    names_iff.mpr ⟨_, extension.named, rfl⟩
  have swept : ((afterBoth root.event tip.event).setWatermark watermark).expire.2 =
      { graph := ((afterBoth root.event tip.event).graph.remove (hash tip.event)).2, tips := [],
        watermark } :=
    expire_of_descending tips tipFound names rootFound (extension.rootless .self)
      (decide_eq_true expires) (fun mem => Int64.not_le.mpr spares (of_decide_eq_true mem))
      extension.differ.symm
  rw [expireTo_afterBoth raises, swept]
  intro consistent
  have kept : ((afterBoth root.event tip.event).graph.remove (hash tip.event)).2.event?
      (hash root.event) = some root.event := by
    rw [event?_remove, if_neg extension.differ.symm, olderHeld]
  obtain ⟨left, leftFound, -⟩ := exists_shadow kept
  have childless (child : EventHash) : child ∉ left.selfChildren := by
    intro mem
    have recorded := (isChild_iff leftFound).mpr (show child ∈ left.childrenOn .self from mem)
    obtain ⟨-, earlier, struck⟩ := (isChild_remove youngerHeld).mp recorded
    exact struck ⟨single child earlier, names⟩
  have tip := (consistent.tip_iff leftFound).mpr fun child mem => (childless child mem).elim
  exact List.not_mem_nil tip

section Decoded

open Signal

variable {own : Generation}

theorem foldl_hear_sending {older younger : Event} (olderWirable : older.IsWirable)
    (youngerWirable : younger.IsWirable) : (sending older younger watermark).foldl hear ∅ =
      ((afterBoth older younger).expireTo watermark).2 := by
  simp only [sending, List.foldl_cons, List.foldl_nil, hear_encode olderWirable,
    hear_encode youngerWirable]
  rfl

theorem checkConsistency_of_sending {condition : Set Event → Prop}
    (differ : rootContent.digest ≠ (childContent own declared).digest)
    (keeps : condition {event | event ∈ [rootContent.toEvent, (childContent own declared).toEvent]})
    (fails : ¬ ((afterBoth rootContent.toEvent (childContent own declared).toEvent).expireTo
      watermark).2.IsConsistent) :
    let signals := sending rootContent.toEvent (childContent own declared).toEvent watermark
    Set.InjOn DagEvent.hash (decoded signals) ∧ (watermarks signals).Pairwise (· ≤ ·) ∧
      condition (decoded signals) ∧ (signals.foldl hear ∅).checkConsistency ≠ .ok () := by
  intro signals
  have heard : decoded signals =
      {event | event ∈ [rootContent.toEvent, (childContent own declared).toEvent]} :=
    decoded_sending isWirable_root isWirable_child
  rw [heard, Ne, checkConsistency_eq_ok, foldl_hear_sending isWirable_root isWirable_child]
  exact ⟨(isExtension_child differ).injOn, pairwise_watermarks_sending, keeps, fails⟩

theorem checkConsistency_of_overdeclared
    (differ : rootContent.digest ≠ (childContent own declared).digest)
    (spares : 5 < own) (exceeds : 5 < declared) :
    let signals := sending rootContent.toEvent (childContent own declared).toEvent 5
    Set.InjOn DagEvent.hash (decoded signals) ∧ (watermarks signals).Pairwise (· ≤ ·) ∧
      IsAscending (decoded signals) ∧ (signals.foldl hear ∅).checkConsistency ≠ .ok () := by
  have extension := isExtension_child differ
  have lives : Generation.nothingExpired < generation rootContent.toEvent :=
    show Generation.nothingExpired < 5 by decide
  exact checkConsistency_of_sending differ (extension.isAscending spares)
    (not_isConsistent_of_overdeclared extension lives (Int64.le_refl 5) spares exceeds)

theorem checkConsistency_of_descending
    (differ : rootContent.digest ≠ (childContent own declared).digest)
    (lives : Generation.nothingExpired < own) (expires : own ≤ 4) (modest : declared ≤ 5) :
    let signals := sending rootContent.toEvent (childContent own declared).toEvent 4
    Set.InjOn DagEvent.hash (decoded signals) ∧ (watermarks signals).Pairwise (· ≤ ·) ∧
      IsModest (decoded signals) ∧ (signals.foldl hear ∅).checkConsistency ≠ .ok () := by
  have extension := isExtension_child differ
  have spares : 4 < generation rootContent.toEvent := show (4 : Generation) < 5 by decide
  exact checkConsistency_of_sending differ (extension.isModest modest)
    (not_isConsistent_of_descending extension lives expires spares)

def childDraft (own declared : Generation) : Draft where
  creator := ⟨Vector.replicate 32 1⟩
  selfParent := some ⟨rootContent.digest, declared⟩
  generation := some own

/-- Neither condition can be spared, although the digests differ and drafts of both events can be
built. -/
theorem checkConsistency_fails_of_dishonest_child :
    let high := sending rootContent.toEvent (childContent 10 7).toEvent 5
    let low := sending rootContent.toEvent (childContent 3 2).toEvent 4
    (Set.InjOn DagEvent.hash (decoded high) ∧ (watermarks high).Pairwise (· ≤ ·) ∧
      IsAscending (decoded high) ∧ (high.foldl hear ∅).checkConsistency ≠ .ok ()) ∧
    (Set.InjOn DagEvent.hash (decoded low) ∧ (watermarks low).Pairwise (· ≤ ·) ∧
      IsModest (decoded low) ∧ (low.foldl hear ∅).checkConsistency ≠ .ok ()) ∧
    (childDraft 10 7).build 0 = .ok (childContent 10 7).toEvent ∧
    (childDraft 3 2).build 0 = .ok (childContent 3 2).toEvent := by
  have highDiffers : rootContent.digest ≠ (childContent 10 7).digest := by decide +kernel
  have lowDiffers : rootContent.digest ≠ (childContent 3 2).digest := by decide +kernel
  refine ⟨?_, ?_, rfl, rfl⟩
  · exact checkConsistency_of_overdeclared highDiffers (by decide) (by decide)
  · exact checkConsistency_of_descending lowDiffers (by decide) (by decide) (by decide)

end Decoded

end Replica
end Hashgraph
