import Hashgraph.Proofs.Network.Grounding

/-! Retention. The watermark follows the highest held generation at the distance that is retained,
saturated at the ends of the range, and never falls back. What a sweep leaves is no higher than what
was there, so that a second call at once finds the watermark where it wants it. -/

namespace Hashgraph

open DagEvent Replica

namespace Generation

theorem toInt_minus (generation amount : Generation) : (generation.minus amount).toInt =
    max Int64.minValue.toInt (min (generation.toInt - amount.toInt) Int64.maxValue.toInt) :=
  toInt_ofIntClamp _

theorem minus_le_minus {lower upper : Generation} (below : lower ≤ upper) (amount : Generation) :
    lower.minus amount ≤ upper.minus amount := by
  rw [Int64.le_iff_toInt_le] at below ⊢
  rw [toInt_minus, toInt_minus]
  omega

/-- What is retained keeps the distance, but at the bottom of the range. -/
theorem minus_lt {highest retained watermark : Generation} (positive : 1 ≤ retained)
    (raises : watermark < highest.minus retained) : highest.minus retained < highest := by
  have one : (1 : Generation).toInt = 1 := rfl
  have bottom := Int64.minValue_le_toInt watermark
  rw [Int64.le_iff_toInt_le, one] at positive
  rw [Int64.lt_iff_toInt_lt, toInt_minus] at raises ⊢
  omega

end Generation

namespace Replica

variable {ε : Type} [DagEvent ε] {replica : Replica ε} {highest : Generation}

theorem mem_generations {value : Generation} :
    value ∈ replica.graph.toList.map Shadow.generation ↔
      value ∈ DagEvent.generation '' replica.events := by
  rw [List.mem_map]
  constructor
  · rintro ⟨shadow, mem, rfl⟩
    obtain ⟨hash, held⟩ := ShadowGraph.mem_toList.mp mem
    exact ⟨shadow.event, mem_events_of_get? held, rfl⟩
  · rintro ⟨event, ⟨hash, held⟩, rfl⟩
    obtain ⟨shadow, found, rfl⟩ := ShadowGraph.exists_shadow held
    exact ⟨shadow, ShadowGraph.mem_toList.mpr ⟨hash, found⟩, rfl⟩

theorem maxGeneration?_eq_some : replica.maxGeneration? = some highest ↔
    IsGreatest (DagEvent.generation '' replica.events) highest := by
  rw [maxGeneration?, List.max?_eq_some_iff]
  simp only [mem_generations]
  rfl

theorem maxGeneration?_eq_none : replica.maxGeneration? = none ↔ replica.events = ∅ := by
  rw [maxGeneration?, List.max?_eq_none_iff, List.eq_nil_iff_forall_not_mem]
  simp only [mem_generations]
  rw [← Set.eq_empty_iff_forall_notMem, Set.image_eq_empty]

theorem exists_isGreatest (nonempty : replica.events.Nonempty) :
    ∃ highest, IsGreatest (DagEvent.generation '' replica.events) highest := by
  obtain ⟨highest, found⟩ := Option.ne_none_iff_exists'.mp
    fun none => nonempty.ne_empty (maxGeneration?_eq_none.mp none)
  exact ⟨highest, maxGeneration?_eq_some.mp found⟩

/-- Where nothing is expired, the sieve at the watermark lets everything through. -/
theorem IsSwept.sifted (swept : replica.IsSwept) (valid : replica.Valid) :
    Sifted replica replica.watermark 0 replica where
  watermark_eq := rfl
  event?_eq hash := by
    cases found : replica.graph.event? hash with
    | none => rfl
    | some event => simp [Option.filter, swept event ⟨hash, found⟩]
  selfChildren_eq held survives := by
    rw [held] at survives
    exact congrArg Shadow.selfChildren (Option.some.inj survives).symm
  tips_eq := by
    refine (List.filter_eq_self.mpr fun tip mem => ?_).symm
    obtain ⟨event, found⟩ := ShadowGraph.mem_iff_event?.mp (valid.mem_of_tip mem)
    simp [found, swept event ⟨tip, found⟩]
  size_eq := Nat.zero_add _

end Replica

namespace Node

/-- What a node becomes when it retains some generations and so removes some shadows. -/
structure Retains (node : Node) (retained : Generation) (removed : Nat) (after : Node) : Prop where
  watermark_le : node.replica.watermark ≤ after.replica.watermark
  watermark_eq : node.replica.events.Nonempty → ∃ highest,
    IsGreatest (DagEvent.generation '' node.replica.events) highest ∧
    after.replica.watermark.toInt = max node.replica.watermark.toInt
      (max Int64.minValue.toInt (min (highest.toInt - retained.toInt) Int64.maxValue.toInt))
  highest_kept : 1 ≤ retained → ∀ event ∈ node.replica.events,
    (∀ other ∈ node.replica.events, generation other ≤ generation event) →
    event ∈ after.replica.events
  size_eq : removed + after.replica.graph.size = node.replica.graph.size
  rest_eq : after = { node with
    replica := after.replica
    stats := { node.stats with shadowsExpired := node.stats.shadowsExpired + removed } }
  again : after.expireRetaining retained = (0, after)

variable {node after : Node} {retained highest : Generation} {removed : Nat}

theorem Retains.toInt_watermark (retains : node.Retains retained removed after)
    (greatest : IsGreatest (DagEvent.generation '' node.replica.events) highest) :
    after.replica.watermark.toInt = max node.replica.watermark.toInt
      (max Int64.minValue.toInt (min (highest.toInt - retained.toInt) Int64.maxValue.toInt)) := by
  obtain ⟨event, held, -⟩ := greatest.1
  obtain ⟨other, otherGreatest, same⟩ := retains.watermark_eq ⟨event, held⟩
  rwa [Int64.le_antisymm (greatest.2 otherGreatest.1) (otherGreatest.2 greatest.1)] at same

theorem expireRetaining_of_low
    (low : ∀ event ∈ node.replica.events,
      (generation event).minus retained ≤ node.replica.watermark) :
    node.expireRetaining retained = (0, node) := by
  unfold expireRetaining
  cases found : node.replica.maxGeneration? with
  | none => rfl
  | some highest =>
    obtain ⟨event, held, rfl⟩ := (maxGeneration?_eq_some.mp found).1
    exact if_pos (low event held)

theorem expireRetaining_of_raises
    (greatest : IsGreatest (DagEvent.generation '' node.replica.events) highest)
    (raises : node.replica.watermark < highest.minus retained) :
    node.expireRetaining retained =
      ((node.replica.expireTo (highest.minus retained)).1,
        { node with
          replica := (node.replica.expireTo (highest.minus retained)).2
          stats := { node.stats with shadowsExpired :=
            node.stats.shadowsExpired + (node.replica.expireTo (highest.minus retained)).1 } }) := by
  unfold expireRetaining
  rw [maxGeneration?_eq_some.mpr greatest]
  exact if_neg (Int64.not_le.mpr raises)

/-- Where all that is held is at the distance already, nothing happens. -/
theorem retains_of_low
    (low : ∀ event ∈ node.replica.events,
      (generation event).minus retained ≤ node.replica.watermark) :
    node.Retains retained 0 node where
  watermark_le := Int64.le_refl _
  watermark_eq nonempty := by
    obtain ⟨highest, greatest⟩ := exists_isGreatest nonempty
    refine ⟨highest, greatest, ?_⟩
    obtain ⟨event, held, rfl⟩ := greatest.1
    have below := low event held
    rw [Int64.le_iff_toInt_le] at below
    rw [← Generation.toInt_minus]
    omega
  highest_kept _ _ held _ := held
  size_eq := Nat.zero_add _
  rest_eq := rfl
  again := expireRetaining_of_low low

theorem retains_of_raises (valid : node.replica.Valid)
    (greatest : IsGreatest (DagEvent.generation '' node.replica.events) highest)
    (raises : node.replica.watermark < highest.minus retained) :
    node.Retains retained (node.expireRetaining retained).1 (node.expireRetaining retained).2 := by
  rw [expireRetaining_of_raises greatest raises]
  refine ⟨?_, fun _ => ⟨highest, greatest, ?_⟩, ?_, ?_, rfl, ?_⟩
  · rw [expireTo_watermark]
    exact Int64.le_of_lt raises
  · rw [Int64.lt_iff_toInt_lt] at raises
    rw [expireTo_watermark, ← Generation.toInt_minus]
    omega
  · intro positive event mem top
    obtain ⟨other, otherMem, rfl⟩ := greatest.1
    have same : generation event = generation other :=
      Int64.le_antisymm (greatest.2 ⟨event, mem, rfl⟩) (top other otherMem)
    have above := Generation.minus_lt positive raises
    rw [← same] at above ⊢
    have held := (mem_events_iff valid.linked).mp mem
    exact ⟨_, held.expireTo valid.linked above⟩
  · exact node.replica.expireTo_count _
  · -- what is left is no higher than before
    apply expireRetaining_of_low
    rintro event ⟨hash, held⟩
    have before := event?_of_expireTo valid.linked held
    rw [expireTo_watermark]
    exact Generation.minus_le_minus (greatest.2 ⟨event, ⟨hash, before⟩, rfl⟩) retained

theorem retains_expireRetaining (valid : node.replica.Valid) (retained : Generation) :
    node.Retains retained (node.expireRetaining retained).1 (node.expireRetaining retained).2 := by
  by_cases low : ∀ event ∈ node.replica.events,
      (generation event).minus retained ≤ node.replica.watermark
  · rw [expireRetaining_of_low low]
    exact retains_of_low low
  · push Not at low
    obtain ⟨event, held, raises⟩ := low
    obtain ⟨highest, greatest⟩ := exists_isGreatest ⟨event, held⟩
    have above := Generation.minus_le_minus (greatest.2 ⟨event, held, rfl⟩) retained
    exact retains_of_raises valid greatest (Int64.lt_of_lt_of_le (Int64.not_le.mp raises) above)

/-- Where no two events share a hash, the survivors are those above the watermark. -/
theorem Grounded.expireRetaining_sifted {created : List Event} (grounded : node.Grounded created)
    (rooted : IsRooted created) (injective : Set.InjOn DagEvent.hash {event | event ∈ created})
    (retained : Generation) :
    Sifted node.replica (node.expireRetaining retained).2.replica.watermark
      (node.expireRetaining retained).1 (node.expireRetaining retained).2.replica := by
  obtain ⟨gathered, swept⟩ := grounded.orderly injective
  unfold Node.expireRetaining
  split
  · exact swept.sifted grounded.valid
  · rename_i highest found
    dsimp only
    split
    · exact swept.sifted grounded.valid
    · rename_i raises
      have moves : highest.minus retained ≠ node.replica.watermark :=
        fun same => raises (Int64.le_of_eq same)
      rw [expireTo_watermark]
      exact gathered.expireTo_sifted (rooted.isAscending injective) moves

end Node

namespace Network

variable {created : List Event} {network : Network} {node : Node}

/-- However a node has come about, and whatever it is asked to retain: its watermark rises to the
distance from its highest generation or stays, it counts what it removes, and nothing happens when
it is asked again. Where no two events share a hash, exactly what is above the watermark survives. -/
theorem expireRetaining_of_operated (run : Operated created network) (mem : node ∈ network.nodes)
    (retained : Generation) :
    let removed := (node.expireRetaining retained).1
    let after := (node.expireRetaining retained).2
    node.Retains retained removed after ∧
      (Set.InjOn DagEvent.hash {event | event ∈ created} →
        Sifted node.replica after.replica.watermark removed after.replica) := by
  obtain ⟨rooted, grounded⟩ := run.grounded
  have here := grounded node mem
  refine ⟨Node.retains_expireRetaining here.valid retained, fun injective => ?_⟩
  exact here.expireRetaining_sifted rooted injective retained

/-- The first node has created two events and retains one generation. -/
theorem expireRetaining_of_stirred :
    let stirred := left (stir (left (stir quiet)))
    ∃ node, stirred.nodes[0]? = some node ∧
      let after := (node.expireRetaining 1).2
      after.replica.watermark = 0 ∧ after.replica.events.Nonempty ∧
        (∀ event ∈ after.replica.events, 0 < generation event) ∧
        after.expireRetaining 1 = (0, after) := by
  intro stirred
  have facts : stirred.nodes[0]?.any fun node => node.replica.maxGeneration? = some 1 ∧
      node.replica.watermark = Int64.minValue := by
    decide +kernel
  obtain ⟨node, found, facts⟩ := (Option.any_eq_true _ _).mp facts
  obtain ⟨highest, low⟩ := of_decide_eq_true facts
  have greatest := maxGeneration?_eq_some.mp highest
  obtain ⟨retains, sifted⟩ :=
    expireRetaining_of_operated gossiped_stirred.operated (Array.mem_of_getElem? found) 1
  obtain ⟨newest, held, top⟩ := greatest.1
  have watermark : (node.expireRetaining 1).2.replica.watermark = 0 := by
    have same := retains.toInt_watermark greatest
    rw [low] at same
    exact Int64.toInt_inj.mp same
  have kept : newest ∈ (node.expireRetaining 1).2.replica.events := by
    refine retains.highest_kept (by decide) newest held fun older olderHeld => ?_
    rw [top]
    exact greatest.2 ⟨older, olderHeld, rfl⟩
  refine ⟨node, found, watermark, ⟨newest, kept⟩, ?_, retains.again⟩
  rintro event ⟨hash, survives⟩
  have filtered := ((sifted injOn_stirred).event?_eq hash).symm.trans survives
  rw [Option.filter_eq_some_iff, watermark, decide_eq_true_iff] at filtered
  exact filtered.2

end Network
end Hashgraph
