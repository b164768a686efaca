import Mathlib.Order.Bounds.Basic
import Hashgraph.Proofs.Network.Agreement
import Hashgraph.Proofs.Network.Flooding
import Hashgraph.Proofs.Network.Run
import Hashgraph.Proofs.Replica.Commutation

/-! Settling. Once the watermarks are aligned, every exchange leaves both nodes with what either of
them held, so that one pass over all pairs floods the network; after it the nodes hold the same
events and therefore have the same tips. -/

namespace Hashgraph

open DagEvent Replica

variable {created : List Event} {watermark : Generation}

namespace Node

/-- A sound node at a watermark that can take all created events in one batch. -/
structure Level (created : List Event) (watermark : Generation) (node : Node) : Prop
    extends Sound created node where
  watermark_eq : node.replica.watermark = watermark
  room : created.length ≤ node.batchLimit

namespace Level

variable {node peer : Node} {offered : List Event}

theorem recordSync (level : node.Level created watermark) (sent : Nat) (tally : Tally) :
    (node.recordSync sent tally).Level created watermark :=
  ⟨level.toSound.recordSync sent tally, level.watermark_eq, level.room⟩

theorem absorb (ours : node.Level created watermark) (theirs : peer.Level created watermark)
    (history : IsHistory {event | event ∈ created}) {spared : Set Event}
    (completes : Completes peer.replica spared offered) :
    (node.absorb offered).Level created watermark where
  toSound := ours.toSound.absorb theirs.toSound history completes
  watermark_eq := addEvents_watermark.trans ours.watermark_eq
  room := ours.room

/-- A node that is sent what it is short of then holds the events of both. -/
theorem events_absorb (ours : node.Level created watermark) (theirs : peer.Level created watermark)
    (history : IsHistory {event | event ∈ created})
    (completes : Completes peer.replica
      (redundant {event | event ∈ created} peer.replica node.replica) offered) :
    (node.absorb offered).replica.events = node.replica.events ∪ peer.replica.events := by
  have theirsCoherent := theirs.reached.coherent history
  have made : offered ⊆ created :=
    fun event listed => theirsCoherent.mem_of_holds (completes.listed event listed)
  have fits : offered.length ≤ node.batchLimit :=
    Nat.le_trans (List.subperm_of_subset completes.nodup.of_map made).length_le ours.room
  rw [absorb_replica fits, Set.union_comm]
  exact completes.events_addEvents history theirsCoherent (ours.reached.coherent history)
    (theirs.watermark_eq.trans ours.watermark_eq.symm) theirs.swept

end Level

theorem Sound.raiseWatermark {node : Node} (sound : node.Sound created)
    (history : IsHistory {event | event ∈ created}) (raises : node.replica.watermark ≤ watermark)
    (room : created.length ≤ node.batchLimit) :
    (Network.raiseWatermark watermark node).Level created watermark ∧
      (Network.raiseWatermark watermark node).replica.events =
        {event ∈ node.replica.events | watermark < generation event} := by
  have coherent := sound.reached.coherent history
  unfold Network.raiseWatermark
  split
  · rename_i below
    refine ⟨⟨⟨.step sound.reached (.expireTo raises), ?_, sound.own⟩, expireTo_watermark, room⟩, ?_⟩
    · exact coherent.isSwept_expireTo history sound.swept watermark
    · have moves : watermark ≠ node.replica.watermark := by
        rintro rfl
        exact Int64.lt_irrefl below
      ext event
      rw [mem_events_iff (coherent.expireTo history raises).linked,
        coherent.holds_expireTo_iff history moves, ← mem_events_iff coherent.linked, Int64.not_le]
      rfl
  · rename_i stands
    have same : node.replica.watermark = watermark :=
      Int64.le_antisymm raises (Int64.not_lt.mp stands)
    refine ⟨⟨sound, same, room⟩, (Set.sep_eq_self_iff_mem_true.mpr ?_).symm⟩
    exact same ▸ sound.swept

end Node

namespace Network

variable {network : Network}

def Level (created : List Event) (watermark : Generation) (network : Network) : Prop :=
  ∀ node ∈ network.nodes, node.Level created watermark

def holdings (network : Network) (place : Nat) : Set Event :=
  network.nodes[place]?.elim ∅ fun node => node.replica.events

theorem holdings_of_getElem? {place : Nat} {node : Node}
    (found : network.nodes[place]? = some node) : network.holdings place = node.replica.events := by
  rw [holdings, found, Option.elim]

@[simp] theorem size_setNode {place : Nat} {node : Node} :
    (network.setNode place node).size = network.size := Array.size_setIfInBounds

theorem holdings_setNode {place : Nat} {node : Node} (there : place < network.size) (other : Nat) :
    (network.setNode place node).holdings other =
      if other = place then node.replica.events else network.holdings other := by
  unfold holdings setNode
  rw [Array.getElem?_setIfInBounds]
  split
  · rename_i same
    rw [if_pos (show place < network.nodes.size from there), if_pos same.symm, Option.elim]
  · rename_i differ
    rw [if_neg (Ne.symm differ)]

theorem Level.sync (level : network.Level created watermark) (closed : IsClosed created)
    (history : IsHistory {event | event ∈ created}) {pair : Nat × Nat}
    (mem : pair ∈ pairs network.size) :
    ∃ outcome after, sync pair.1 pair.2 network = .ok outcome after ∧
      after.Level created watermark ∧ after.size = network.size ∧
      after.holdings = pool network.holdings pair := by
  obtain ⟨place, peer⟩ := pair
  obtain ⟨above, below⟩ := mem_pairs.mp mem
  have here : place < network.size := Nat.lt_trans above below
  have found : network.nodes[place]? = some network.nodes[place] := Array.getElem?_eq_getElem here
  have otherFound : network.nodes[peer]? = some network.nodes[peer] :=
    Array.getElem?_eq_getElem below
  have ours := level _ (Array.mem_of_getElem? found)
  have theirs := level _ (Array.mem_of_getElem? otherFound)
  obtain ⟨toPeer, toNode, outcome, forPeer, forNode, synced⟩ :=
    ours.toSound.syncWith theirs.toSound closed.wirable history
  refine ⟨outcome, _, sync_of_syncWith found otherFound (Nat.ne_of_lt above) synced, ?_,
    size_setNode.trans size_setNode, ?_⟩
  · exact forall_setNode (forall_setNode level ((ours.absorb theirs history forNode).recordSync ..))
      ((theirs.absorb ours history forPeer).recordSync ..)
  · have pooled := ours.events_absorb theirs history forNode
    have peerPooled := theirs.events_absorb ours history forPeer
    funext other
    rw [holdings_setNode (by rwa [size_setNode]), holdings_setNode here, pool,
      holdings_of_getElem? found, holdings_of_getElem? otherFound]
    by_cases second : other = peer
    · rw [if_pos second, if_pos (.inr second)]
      exact peerPooled.trans (Set.union_comm ..)
    · rw [if_neg second]
      by_cases first : other = place
      · rw [if_pos first, if_pos (.inl first)]
        exact pooled
      · rw [if_neg first, if_neg (not_or.mpr ⟨first, second⟩)]

theorem Level.syncPairs (level : network.Level created watermark) (closed : IsClosed created)
    (history : IsHistory {event | event ∈ created}) {meetings : List (Nat × Nat)}
    (within : meetings ⊆ pairs network.size) :
    ∃ after, syncPairs meetings network = .ok () after ∧ after.Level created watermark ∧
      after.size = network.size ∧ after.holdings = meetings.foldl pool network.holdings := by
  induction meetings generalizing network with
  | nil => exact ⟨network, rfl, level, rfl, rfl⟩
  | cons pair rest ih =>
    obtain ⟨first, others⟩ := List.cons_subset.mp within
    obtain ⟨outcome, met, synced, metLevel, metSize, metHoldings⟩ := level.sync closed history first
    obtain ⟨after, finished, afterLevel, size, holdings⟩ := ih metLevel (metSize ▸ others)
    refine ⟨after, ?_, afterLevel, size.trans metSize, ?_⟩
    · rw [Network.syncPairs, synced]
      exact finished
    · rw [List.foldl_cons, ← metHoldings, holdings]

/-- Level nodes have the same tips exactly if they hold the same events. -/
theorem Level.tipsConverged_iff (level : network.Level created watermark)
    (history : IsHistory {event | event ∈ created}) :
    network.tipsConverged = true ↔ ∀ node ∈ network.nodes, ∀ peer ∈ network.nodes,
      node.replica.events = peer.replica.events := by
  have coherent : ∀ node ∈ network.nodes, Coherent {event | event ∈ created} node.replica :=
    fun node mem => (level node mem).reached.coherent history
  rw [tipsConverged_iff_graphs history coherent (fun node mem => (level node mem).watermark_eq)
    fun node mem => (level node mem).swept]
  refine forall₂_congr fun node mem => forall₂_congr fun peer peerMem => ?_
  constructor
  · intro same
    simp only [Replica.events, Replica.event?, same]
  · exact (coherent node mem).graph_eq_of_events (coherent peer peerMem)

theorem converge_of_tipsConverged (converged : network.tipsConverged = true) (passes : Nat) :
    converge passes network = .ok 0 network := by
  cases passes with
  | zero => rfl
  | succ passes => rw [converge, if_pos converged]

/-- Every place has what all places had. -/
def Floods (before after : Network) : Prop :=
  after.size = before.size ∧
    ∀ place < before.size, after.holdings place = ⋃ other < before.size, before.holdings other

theorem Floods.tipsConverged {after : Network} (floods : network.Floods after)
    (level : after.Level created watermark) (history : IsHistory {event | event ∈ created}) :
    after.tipsConverged = true := by
  rw [level.tipsConverged_iff history]
  have whole : ∀ node ∈ after.nodes,
      node.replica.events = ⋃ other < network.size, network.holdings other := by
    intro node mem
    obtain ⟨place, found⟩ := Array.mem_iff_getElem?.mp mem
    rw [← holdings_of_getElem? found]
    exact floods.2 place (floods.1 ▸ (Array.getElem?_eq_some_iff.mp found).1)
  intro node mem peer peerMem
  rw [whole node mem, whole peer peerMem]

/-- A level network converges in one pass, unless it has converged before. -/
theorem Level.converge (level : network.Level created watermark) (closed : IsClosed created)
    (history : IsHistory {event | event ∈ created}) (bound : Nat) :
    ∃ passes after, converge (bound + 1) network = .ok passes after ∧ passes ≤ 1 ∧
      after.Level created watermark ∧ network.Floods after := by
  by_cases converged : network.tipsConverged = true
  · refine ⟨0, network, converge_of_tipsConverged converged _, Nat.zero_le _, level, rfl, ?_⟩
    intro place here
    have same := (level.tipsConverged_iff history).mp converged
    apply Set.Subset.antisymm
    · exact Set.subset_iUnion₂_of_subset place here Set.Subset.rfl
    · refine Set.iUnion₂_subset fun other there => ?_
      rw [holdings_of_getElem? (Array.getElem?_eq_getElem here),
        holdings_of_getElem? (Array.getElem?_eq_getElem there)]
      exact (same _ (Array.getElem_mem there) _ (Array.getElem_mem here)).subset
  · obtain ⟨after, synced, afterLevel, size, holdings⟩ :=
      level.syncPairs closed history (List.Subset.refl (pairs network.size))
    have floods : network.Floods after := by
      refine ⟨size, fun place here => ?_⟩
      rw [holdings, foldl_pool_pairs _ here]
    have done := converge_of_tipsConverged (floods.tipsConverged afterLevel history) bound
    refine ⟨1, after, ?_, Nat.le_refl _, afterLevel, floods⟩
    rw [Network.converge, if_neg converged, synced]
    simp only [done]

theorem isGreatest_of_highestWatermark? {highest : Generation}
    (found : network.highestWatermark? = some highest) :
    IsGreatest {watermark | ∃ node ∈ network.nodes, node.replica.watermark = watermark}
      highest := by
  obtain ⟨mem, bound⟩ := List.max?_eq_some_iff.mp found
  constructor
  · obtain ⟨node, there, same⟩ := List.mem_map.mp mem
    exact ⟨node, Array.mem_toList_iff.mp there, same⟩
  · rintro _ ⟨node, there, rfl⟩
    exact bound _ (List.mem_map_of_mem (Array.mem_toList_iff.mpr there))

theorem Sound.alignWatermarks (sound : network.Sound created)
    (history : IsHistory {event | event ∈ created})
    (room : ∀ node ∈ network.nodes, created.length ≤ node.batchLimit) :
    ∃ highest, network.alignWatermarks.Level created highest ∧
      (∀ node ∈ network.nodes, IsGreatest
        {watermark | ∃ node ∈ network.nodes, node.replica.watermark = watermark} highest) ∧
      network.alignWatermarks.size = network.size ∧
      ∀ place, network.alignWatermarks.holdings place =
        {event ∈ network.holdings place | highest < generation event} := by
  unfold Network.alignWatermarks
  cases found : network.highestWatermark? with
  | none =>
    have empty : network.nodes = #[] := by
      rwa [highestWatermark?, List.max?_eq_none_iff, List.map_eq_nil_iff, Array.toList_eq_nil_iff]
        at found
    have absent (node : Node) : node ∉ network.nodes := empty ▸ Array.not_mem_empty node
    refine ⟨Generation.first, fun node mem => (absent node mem).elim,
      fun node mem => (absent node mem).elim, rfl, fun place => ?_⟩
    simp [holdings, empty]
  | some highest =>
    have greatest := isGreatest_of_highestWatermark? found
    have raised : ∀ node ∈ network.nodes, _ := fun node mem =>
      (sound node mem).raiseWatermark history (greatest.2 ⟨node, mem, rfl⟩) (room node mem)
    refine ⟨highest, ?_, fun _ _ => greatest, Array.size_map, ?_⟩
    · intro node mem
      obtain ⟨earlier, there, rfl⟩ := Array.mem_map.mp mem
      exact (raised earlier there).1
    · intro place
      dsimp only [holdings]
      rw [Array.getElem?_map]
      cases here : network.nodes[place]? with
      | none => simp
      | some node => exact (raised node (Array.mem_of_getElem? here)).2

/-- However a network has gossiped, it settles in one pass, unless its tips agree before: then all
nodes are at the highest watermark that there was and hold the same events, namely all those above
it. The run may name as other-parent whatever a node chooses at random. -/
theorem settle_converges (run : Gossiped created network)
    (injective : Set.InjOn DagEvent.hash {event | event ∈ created})
    (room : ∀ node ∈ network.nodes, created.length ≤ node.batchLimit) :
    (∀ node ∈ network.nodes, ∀ generator, Refers created (node.chooseOtherParent generator).1) ∧
    ∃ passes settled, settle network = .ok passes settled ∧ passes ≤ 1 ∧
      settled.size = network.size ∧
      (∀ node ∈ settled.nodes,
        IsGreatest {watermark | ∃ earlier ∈ network.nodes, earlier.replica.watermark = watermark}
          node.replica.watermark ∧
        node.replica.IsSwept ∧
        node.replica.events = {event | (∃ earlier ∈ network.nodes, event ∈ earlier.replica.events) ∧
          node.replica.watermark < generation event}) ∧
      (∀ node ∈ settled.nodes, ∀ peer ∈ settled.nodes,
        node.replica.events = peer.replica.events) ∧
      settled.tipsConverged = true := by
  obtain ⟨closed, sound⟩ := run.sound injective
  have history := closed.isHistory injective
  obtain ⟨highest, aligned, greatest, size, kept⟩ := sound.alignWatermarks history room
  obtain ⟨passes, settled, converges, once, level, floods⟩ := aligned.converge closed history 2
  have converged := floods.tipsConverged level history
  refine ⟨fun node mem => (sound node mem).refers_chooseOtherParent history, passes, settled,
    converges, once, floods.1.trans size, ?_,
    (level.tipsConverged_iff history).mp converged, converged⟩
  intro node mem
  obtain ⟨place, found⟩ := Array.mem_iff_getElem?.mp mem
  have here : place < network.alignWatermarks.size :=
    floods.1 ▸ (Array.getElem?_eq_some_iff.mp found).1
  have origin := Array.getElem_mem (Nat.lt_of_lt_of_eq here size)
  rw [(level node mem).watermark_eq]
  refine ⟨greatest _ origin, (level node mem).swept, ?_⟩
  rw [← holdings_of_getElem? found, floods.2 place here, size]
  ext event
  simp only [kept, Set.mem_iUnion, Set.mem_ofPred_eq, exists_prop]
  constructor
  · rintro ⟨other, there, held, above⟩
    rw [holdings_of_getElem? (Array.getElem?_eq_getElem there)] at held
    exact ⟨⟨_, Array.getElem_mem there, held⟩, above⟩
  · rintro ⟨⟨earlier, earlierMem, held⟩, above⟩
    obtain ⟨other, there⟩ := Array.mem_iff_getElem?.mp earlierMem
    rw [← holdings_of_getElem? there] at held
    exact ⟨other, (Array.getElem?_eq_some_iff.mp there).1, held, above⟩

def quiet : Network :=
  ⟨#[{ name := "ann", creator := ⟨Vector.replicate 32 1⟩, batchLimit := 2 },
    { name := "bob", creator := ⟨Vector.replicate 32 2⟩, batchLimit := 2 }]⟩

/-- What comes of it when the first node creates an event. -/
def stir (network : Network) : EStateM.Result NodeError Network (Option Event) :=
  create 0 (fun _ => 0) none [] network

theorem Gossiped.stir {created : List Event} (run : Gossiped created network) :
    Gossiped (created ++ born (stir network)) (left (stir network)) := by
  have rootless : Refers created none := fun _ mem => by contradiction
  exact .create run rootless (by decide) (fun _ mem => by contradiction) _ _

theorem gossiped_stirred : Gossiped (born (stir quiet) ++ born (stir (left (stir quiet))))
    (left (stir (left (stir quiet)))) := by
  have fresh : ∀ node ∈ quiet.nodes, node.replica = ∅ ∧ node.lastEvent = none := by simp [quiet]
  exact (Gossiped.start fresh).stir.stir

theorem injOn_stirred : Set.InjOn DagEvent.hash
    {event | event ∈ born (stir quiet) ++ born (stir (left (stir quiet)))} := by
  have distinct : ((born (stir quiet) ++ born (stir (left (stir quiet)))).map
      DagEvent.hash).Nodup := by decide +kernel
  exact fun first firstMem second secondMem => List.inj_on_of_nodup_map distinct firstMem secondMem

/-- The first node has created two events and retains one generation; the second has heard of
nothing yet. -/
theorem settle_converges_stirred :
    let stirred := left (stir (left (stir quiet)))
    ∃ node, stirred.nodes[0]? = some node ∧ ∃ passes settled,
      settle (stirred.setNode 0 (node.expireRetaining 1).2) = .ok passes settled ∧ passes ≤ 1 ∧
        settled.tipsConverged = true := by
  intro stirred
  have computed : (born (stir quiet) ++ born (stir (left (stir quiet)))).length = 2 ∧
      stirred.nodes[0]?.isSome ∧ ∀ node ∈ stirred.nodes.toList, 2 ≤ node.batchLimit := by
    decide +kernel
  obtain ⟨two, there, roomy⟩ := computed
  obtain ⟨node, found⟩ := Option.isSome_iff_exists.mp there
  have room : ∀ node ∈ stirred.nodes, 2 ≤ node.batchLimit :=
    fun node mem => roomy node (Array.mem_toList_iff.mpr mem)
  have expired : 2 ≤ (node.expireRetaining 1).2.batchLimit := by
    have before := room node (Array.mem_of_getElem? found)
    rcases node.expireRetaining_cases 1 with unchanged | ⟨_, _, -, changed⟩
    · rwa [unchanged]
    · rwa [changed]
  obtain ⟨-, passes, settled, converges, once, -, -, -, converged⟩ :=
    settle_converges (gossiped_stirred.expire found 1) injOn_stirred
      (two ▸ forall_setNode room expired)
  exact ⟨node, found, passes, settled, converges, once, converged⟩

end Network
end Hashgraph
