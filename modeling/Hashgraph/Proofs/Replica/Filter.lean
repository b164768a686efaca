import Hashgraph.Proofs.Graph.Termination
import Hashgraph.Proofs.Replica.Run

/-! Expiration as a filter. In every state of a run that mixes intake with sweeps and with moves of
the watermark in both directions, a sweep keeps what lies above its watermark, and none of its walks
takes more steps than the graph has shadows to offer. -/

namespace Hashgraph

open DagEvent ShadowGraph

variable {ε : Type} [DagEvent ε]

/-- A fold that may fail does not, if no step fails in the states that the fold comes to. -/
theorem foldlM_eq_some_foldl {α β : Type} {step : β → α → β} {tryStep : β → α → Option β}
    (Safe : β → Prop) (keeps : ∀ state item, Safe state → Safe (step state item))
    (succeeds : ∀ state item, Safe state → tryStep state item = some (step state item))
    (items : List α) {state : β} (safe : Safe state) :
    items.foldlM tryStep state = some (items.foldl step state) ∧ Safe (items.foldl step state) := by
  induction items generalizing state with
  | nil => exact ⟨rfl, safe⟩
  | cons item rest ih =>
    rw [List.foldlM_cons, succeeds state item safe]
    exact ih (keeps state item safe)

namespace Sweep

variable {whole : ShadowGraph ε} {limit : Nat}

def trimmedBy (watermark : Generation) (sweep : Sweep ε) (tip : EventHash)
    (walked : Nat × ShadowGraph ε) : Sweep ε where
  graph := walked.2
  removed := sweep.removed + walked.1
  expiredTips :=
    if (walked.2.get? tip).all (·.isExpired watermark) then sweep.expiredTips ++ [tip]
    else sweep.expiredTips

def droppedBy (sweep : Sweep ε) (walked : Nat × ShadowGraph ε) : Sweep ε :=
  { sweep with graph := walked.2, removed := sweep.removed + walked.1 }

def trimWithin (limit : Nat) (watermark : Generation) (sweep : Sweep ε) (tip : EventHash) :
    Option (Sweep ε) :=
  (sweep.graph.removeChainWithin (·.isExpired watermark) limit
    ((sweep.graph.get? tip).bind fun shadow => shadow.selfParent.map Descriptor.hash)).map
      (sweep.trimmedBy watermark tip)

def dropWithin (limit : Nat) (watermark : Generation) (sweep : Sweep ε) (tip : EventHash) :
    Option (Sweep ε) :=
  (sweep.graph.removeChainWithin (·.isExpired watermark) limit (some tip)).map sweep.droppedBy

theorem foldlM_trimWithin (watermark : Generation) (falling : whole.Falling)
    (large : whole.size < limit) (tips : List EventHash) (sweep : Sweep ε)
    (part : sweep.graph.IsPartOf whole) :
    tips.foldlM (trimWithin limit watermark) sweep = some (tips.foldl (trim watermark) sweep) ∧
      (tips.foldl (trim watermark) sweep).graph.IsPartOf whole := by
  apply foldlM_eq_some_foldl (fun sweep : Sweep ε => sweep.graph.IsPartOf whole) _ _ tips part
  · exact fun sweep tip part => part.removeChain _ ∅ _
  · intro sweep tip part
    rw [trimWithin, part.removeChainWithin_eq falling _ _ large]
    rfl

theorem foldlM_dropWithin (watermark : Generation) (falling : whole.Falling)
    (large : whole.size < limit) (tips : List EventHash) (sweep : Sweep ε)
    (part : sweep.graph.IsPartOf whole) :
    tips.foldlM (dropWithin limit watermark) sweep = some (tips.foldl (drop watermark) sweep) ∧
      (tips.foldl (drop watermark) sweep).graph.IsPartOf whole := by
  apply foldlM_eq_some_foldl (fun sweep : Sweep ε => sweep.graph.IsPartOf whole) _ _ tips part
  · exact fun sweep tip part => part.removeChain _ ∅ _
  · intro sweep tip part
    rw [dropWithin, part.removeChainWithin_eq falling _ _ large]
    rfl

end Sweep

namespace Replica

/-- The sweep at the current watermark, none if one of its walks takes more than `limit` steps. -/
def expireWithin (limit : Nat) (replica : Replica ε) : Option (Nat × Replica ε) := do
  let trimmed ← replica.tips.foldlM (Sweep.trimWithin limit replica.watermark)
    { graph := replica.graph }
  let dropped ← trimmed.expiredTips.foldlM (Sweep.dropWithin limit replica.watermark) trimmed
  let tips := trimmed.expiredTips.foldl List.erase replica.tips
  return (dropped.removed, { replica with graph := dropped.graph, tips })

def expireToWithin (limit : Nat) (replica : Replica ε) (watermark : Generation) :
    Option (Nat × Replica ε) :=
  if watermark = replica.watermark then some (0, replica)
  else (replica.setWatermark watermark).expireWithin limit

variable {events : Set ε} {replica start : Replica ε} {watermark : Generation}

/-- No walk of a sweep takes more steps than there are shadows, and one to see the end. -/
theorem expireWithin_eq (falling : replica.graph.Falling) {limit : Nat}
    (large : replica.graph.size < limit) : replica.expireWithin limit = some replica.expire := by
  obtain ⟨trims, part⟩ := Sweep.foldlM_trimWithin replica.watermark falling large replica.tips
    { graph := replica.graph } (.refl replica.graph)
  obtain ⟨drops, -⟩ := Sweep.foldlM_dropWithin replica.watermark falling large
    (replica.tips.foldl (Sweep.trim replica.watermark) { graph := replica.graph }).expiredTips _ part
  simp only [expireWithin, trims, drops, Option.bind_eq_bind, Option.bind_some]
  rfl

theorem expireToWithin_eq (falling : replica.graph.Falling) {limit : Nat}
    (large : replica.graph.size < limit) :
    replica.expireToWithin limit watermark = some (replica.expireTo watermark) := by
  unfold expireToWithin expireTo
  split
  · rfl
  · have moved : (replica.setWatermark watermark).graph.Falling := falling
    exact expireWithin_eq moved large

/-- What a sweep at a watermark leaves of a replica, and how much it removes. -/
structure Sifted (before : Replica ε) (watermark : Generation) (removed : Nat)
    (after : Replica ε) : Prop where
  watermark_eq : after.watermark = watermark
  event?_eq : ∀ hash, after.graph.event? hash =
    (before.graph.event? hash).filter fun event => watermark < generation event
  selfChildren_eq : ∀ {hash : EventHash} {shadow survivor : Shadow ε},
    before.graph.get? hash = some shadow → after.graph.get? hash = some survivor →
    survivor.selfChildren = shadow.selfChildren
  tips_eq : after.tips = before.tips.filter fun tip =>
    (before.graph.event? tip).any fun event => watermark < generation event
  size_eq : removed + after.graph.size = before.graph.size

theorem Tracked.expire_sifted (tracked : replica.Tracked) (falling : replica.graph.Falling) :
    Sifted replica replica.watermark replica.expire.1 replica.expire.2 := by
  obtain ⟨pruned, tips, count⟩ := tracked.expire falling
  refine ⟨rfl, ?_, ?_, ?_, count⟩
  · intro hash
    cases found : replica.graph.event? hash with
    | none =>
      have kept : hash ∉ replica.graph.expired replica.watermark := fun mem =>
        event?_eq_none.mp found (mem_of_mem_expired mem)
      rw [pruned.event?_kept kept, found]
      rfl
    | some event =>
      have expired : hash ∈ replica.graph.expired replica.watermark ↔
          generation event ≤ replica.watermark := mem_expired found
      by_cases above : replica.watermark < generation event
      · rw [pruned.event?_kept fun mem => Int64.not_le.mpr above (expired.mp mem), found]
        simp [Option.filter, above]
      · rw [pruned.event?_gone (expired.mpr (Int64.not_lt.mp above))]
        simp [Option.filter, above]
  · intro hash shadow survivor held survives
    apply Std.ExtTreeSet.ext_mem
    intro child
    have kept := (pruned.mem_iff.mp (mem_of_event? (event?_of_get? survives))).1
    have same : replica.expire.2.graph.IsChild .self hash child ↔
        hash ∉ replica.graph.expired replica.watermark ∧ replica.graph.IsChild .self hash child :=
      tracked.linked.isChild_pruned falling pruned
    rw [isChild_iff survives, isChild_iff held, and_iff_right kept] at same
    exact same
  · rw [tips]
    apply List.filter_congr
    intro tip mem
    obtain ⟨event, found⟩ := mem_iff_event?.mp (tracked.mem_tips.mp mem).1
    simp [expires, found, ← Int64.not_lt]

theorem Gathered.expireTo_sifted (gathered : Gathered events replica)
    (ascending : IsAscending events) (moves : watermark ≠ replica.watermark) :
    Sifted replica watermark (replica.expireTo watermark).1 (replica.expireTo watermark).2 := by
  rw [Replica.expireTo, if_neg moves]
  have sifted := (gathered.setWatermark watermark).expire_sifted (gathered.falling ascending)
  exact ⟨sifted.watermark_eq, sifted.event?_eq, sifted.selfChildren_eq, sifted.tips_eq,
    sifted.size_eq⟩

/-- However a run has come about, a sweep is a filter, and it comes to an end. -/
theorem expire_filters (ascending : IsAscending events) (starts : Start events start)
    {commands : List (Command ε)} (offers : Offers events commands) :
    let replica := start.performAll commands
    (Sifted replica replica.watermark replica.expire.1 replica.expire.2 ∧
      ∀ limit, replica.graph.size < limit → replica.expireWithin limit = some replica.expire) ∧
    ∀ watermark, watermark ≠ replica.watermark →
      Sifted replica watermark (replica.expireTo watermark).1 (replica.expireTo watermark).2 ∧
      ∀ limit, replica.graph.size < limit →
        replica.expireToWithin limit watermark = some (replica.expireTo watermark) := by
  intro replica
  have gathered : Gathered events replica := starts.gathered.performAll ascending offers
  have falling : replica.graph.Falling := gathered.falling ascending
  refine ⟨⟨gathered.expire_sifted falling, fun limit large => expireWithin_eq falling large⟩, ?_⟩
  intro watermark moves
  refine ⟨?_, fun limit large => expireToWithin_eq falling large⟩
  rw [expireTo, if_neg moves]
  have sifted := (gathered.setWatermark watermark).expire_sifted falling
  exact ⟨sifted.watermark_eq, sifted.event?_eq, sifted.selfChildren_eq, sifted.tips_eq,
    sifted.size_eq⟩

theorem expire_filters_lateParent :
    let replica := lateParent.performAll widening
    IsAscending {event | event ∈ forkedOutlines} ∧
      Start {event | event ∈ forkedOutlines} lateParent ∧
      Offers {event | event ∈ forkedOutlines} widening ∧
      Sifted replica replica.watermark replica.expire.1 replica.expire.2 ∧
      Sifted replica 1 (replica.expireTo 1).1 (replica.expireTo 1).2 ∧
      replica.expireToWithin (replica.graph.size + 1) 1 = some (replica.expireTo 1) := by
  intro replica
  have history : IsHistory {event | event ∈ forkedOutlines} := by decide +kernel
  obtain ⟨⟨stays, -⟩, moves⟩ :=
    expire_filters history.isAscending start_lateParent offers_widening
  have standing : replica.watermark = 0 := rfl
  obtain ⟨sifted, ends⟩ := moves 1 (by rw [standing]; decide)
  exact ⟨history.isAscending, start_lateParent, offers_widening, stays, sifted,
    ends _ (Nat.lt_succ_self _)⟩

end Replica
end Hashgraph
