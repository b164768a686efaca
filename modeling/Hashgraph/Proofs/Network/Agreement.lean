import Mathlib.Data.List.Perm.Lattice
import Hashgraph.Network.Basic
import Hashgraph.Proofs.Node.Convergence
import Hashgraph.Proofs.Replica.Agreement

/-! What the tips of a network say. The convergence test compares sorted lists of tips, so it
compares sets of tips; and at one watermark the nodes that agree on their tips agree on everything
that they hold. -/

namespace Hashgraph

open DagEvent Replica

namespace Network

variable {events : Set Event} {network : Network}

theorem sortedTips_eq_iff {node peer : Node} (ours : node.replica.Tracked)
    (theirs : peer.replica.Tracked) : sortedTips node = sortedTips peer ↔
      ∀ tip, tip ∈ node.replica.tips ↔ tip ∈ peer.replica.tips := by
  have sorted (tips : List EventHash) :
      (tips.mergeSort fun first second => (compare first second).isLE).Pairwise
        fun first second => (compare first second).isLE = true := by
    refine List.pairwise_mergeSort (fun _ _ _ => Std.TransCmp.isLE_trans) ?_ tips
    intro first second
    have swap : compare second first = (compare first second).swap := Std.OrientedCmp.eq_swap
    rw [swap]
    cases compare first second <;> rfl
  have antisymmetric (first second : EventHash) (le : (compare first second).isLE = true)
      (ge : (compare second first).isLE = true) : first = second :=
    Std.LawfulEqCmp.eq_of_compare (Std.OrientedCmp.isLE_antisymm le ge)
  constructor
  · intro same tip
    calc tip ∈ node.replica.tips
      _ ↔ tip ∈ sortedTips node := List.mem_mergeSort.symm
      _ ↔ tip ∈ sortedTips peer := by rw [same]
      _ ↔ tip ∈ peer.replica.tips := List.mem_mergeSort
  · intro same
    have perm := (List.perm_ext_iff_of_nodup ours.nodup theirs.nodup).mpr same
    exact List.Perm.eq_of_pairwise (fun first second _ _ => antisymmetric first second)
      (sorted _) (sorted _)
      ((List.mergeSort_perm _ _).trans (perm.trans (List.mergeSort_perm _ _).symm))

theorem tipsConverged_iff (tracked : ∀ node ∈ network.nodes, node.replica.Tracked) :
    network.tipsConverged = true ↔ ∀ node ∈ network.nodes, ∀ peer ∈ network.nodes,
      ∀ tip, tip ∈ node.replica.tips ↔ tip ∈ peer.replica.tips := by
  simp only [← Array.mem_toList_iff] at tracked ⊢
  unfold tipsConverged
  cases nodes : network.nodes.toList with
  | nil => simp
  | cons first rest =>
    rw [nodes] at tracked
    have compared {node : Node} (mem : node ∈ rest) :
        sortedTips node = sortedTips first ↔
          ∀ tip, tip ∈ node.replica.tips ↔ tip ∈ first.replica.tips :=
      sortedTips_eq_iff (tracked node (List.mem_cons_of_mem _ mem))
        (tracked first List.mem_cons_self)
    simp only [List.all_eq_true, decide_eq_true_eq]
    constructor
    · intro converged
      have like_first : ∀ node ∈ first :: rest,
          ∀ tip, tip ∈ node.replica.tips ↔ tip ∈ first.replica.tips := by
        rw [List.forall_mem_cons]
        exact ⟨fun _ => Iff.rfl, fun node mem => (compared mem).mp (converged node mem)⟩
      intro node mem peer peerMem tip
      exact (like_first node mem tip).trans (like_first peer peerMem tip).symm
    · intro agree node mem
      exact (compared mem).mpr (agree node (List.mem_cons_of_mem _ mem) first List.mem_cons_self)

/-- Swept nodes at one watermark have the same tips exactly if they have the same graph. -/
theorem tipsConverged_iff_graphs (history : IsHistory events) {watermark : Generation}
    (coherent : ∀ node ∈ network.nodes, Coherent events node.replica)
    (level : ∀ node ∈ network.nodes, node.replica.watermark = watermark)
    (swept : ∀ node ∈ network.nodes, node.replica.IsSwept) :
    network.tipsConverged = true ↔ ∀ node ∈ network.nodes, ∀ peer ∈ network.nodes,
      node.replica.graph = peer.replica.graph := by
  rw [tipsConverged_iff fun node mem => (coherent node mem).toTracked]
  refine forall₂_congr fun node mem => forall₂_congr fun peer peerMem => ?_
  have ours := coherent node mem
  have theirs := coherent peer peerMem
  constructor
  · intro same
    have together := (level node mem).trans (level peer peerMem).symm
    apply ours.graph_eq_of_events theirs
    exact ours.events_eq_of_tips theirs history together (swept node mem) (swept peer peerMem) same
  · exact ours.toTracked.mem_tips_iff_of_graph theirs.toTracked

/-- At one watermark, with nothing expired left, tips speak for whole graphs: of two replicas, and
of all nodes of a network. -/
theorem graphs_eq_of_tips :
    (∀ {ε : Type} [DagEvent ε] {events : Set ε} {replica other : Replica ε}, IsHistory events →
      Reached events replica → Reached events other → replica.watermark = other.watermark →
      replica.IsSwept → other.IsSwept → (∀ tip, tip ∈ replica.tips ↔ tip ∈ other.tips) →
      replica.events = other.events ∧ replica.graph = other.graph) ∧
    ∀ {events : Set Event} {network : Network} {watermark : Generation}, IsHistory events →
      (∀ node ∈ network.nodes, Reached events node.replica ∧ node.replica.watermark = watermark ∧
        node.replica.IsSwept) →
      (network.tipsConverged = true ↔ ∀ node ∈ network.nodes, ∀ peer ∈ network.nodes,
        node.replica.graph = peer.replica.graph) := by
  refine ⟨?_, ?_⟩
  · intro ε _ events replica other history reached otherReached level swept otherSwept same
    have ours := reached.coherent history
    have theirs := otherReached.coherent history
    have sameEvents := ours.events_eq_of_tips theirs history level swept otherSwept same
    exact ⟨sameEvents, ours.graph_eq_of_events theirs sameEvents⟩
  · intro events network watermark history nodes
    exact tipsConverged_iff_graphs history (fun node mem => (nodes node mem).1.coherent history)
      (fun node mem => (nodes node mem).2.1) (fun node mem => (nodes node mem).2.2)

/-- Two orders of arrival of a forked history, and two nodes of which one is behind. -/
theorem graphs_eq_of_tips_forked :
    let early : Replica Outline := ((∅ : Replica Outline).addEvents forkedOutlines).2
    let late : Replica Outline := ((∅ : Replica Outline).addEvents
      [forkedOutline 1, forkedOutline 0, forkedOutline 3, forkedOutline 2]).2
    let network : Network := ⟨#[Node.holding "ann" [Node.firstEvent, Node.secondEvent],
      Node.holding "bob" [Node.firstEvent]]⟩
    (early.tips ≠ late.tips ∧ early.events = late.events ∧ early.graph = late.graph) ∧
      (network.tipsConverged = true ↔ ∀ node ∈ network.nodes, ∀ peer ∈ network.nodes,
        node.replica.graph = peer.replica.graph) := by
  intro early late network
  have earlyTips : early.tips = [.filled 2, .filled 3, .filled 4] := by decide +kernel
  have lateTips : late.tips = [.filled 2, .filled 4, .filled 3] := by decide +kernel
  have history : IsHistory {event | event ∈ forkedOutlines} := by decide +kernel
  have whole : Reached {event | event ∈ forkedOutlines} early :=
    Steps.reached (Steps.addEvents fun _ mem => mem) .empty
  have shuffled : Reached {event | event ∈ forkedOutlines} late := by
    refine Steps.reached (Steps.addEvents ?_) .empty
    simp only [List.forall_mem_cons, forkedOutline_mem, List.not_mem_nil, false_implies,
      implies_true, and_self]
  have level : ∀ node ∈ network.nodes, Reached {event | event ∈ [Node.firstEvent, Node.secondEvent]}
      node.replica ∧ node.replica.watermark = Generation.nothingExpired ∧ node.replica.IsSwept := by
    intro node mem
    have listed : node = Node.holding "ann" [Node.firstEvent, Node.secondEvent] ∨
        node = Node.holding "bob" [Node.firstEvent] := by simpa [network] using mem
    rcases listed with rfl | rfl
    · exact ⟨Steps.reached (Steps.addEvents fun _ mem => mem) .empty, addEvents_watermark,
        IsSwept.empty.addEvents⟩
    · refine ⟨Steps.reached (Steps.addEvents ?_) .empty, addEvents_watermark,
        IsSwept.empty.addEvents⟩
      exact fun event mem => List.mem_of_mem_take (i := 1) mem
  refine ⟨⟨?_, ?_⟩, graphs_eq_of_tips.2 Node.isHistory_twoEvents level⟩
  · rw [earlyTips, lateTips]
    decide +kernel
  · apply graphs_eq_of_tips.1 history whole shuffled
    · simp only [early, late, addEvents_watermark]
    · exact IsSwept.empty.addEvents
    · exact IsSwept.empty.addEvents
    · intro tip
      rw [earlyTips, lateTips]
      simp [or_comm]

end Network
end Hashgraph
