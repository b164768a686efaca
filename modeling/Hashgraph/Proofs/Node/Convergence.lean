import Mathlib.Data.List.Perm.Subperm
import Hashgraph.Node.Gossip
import Hashgraph.Proofs.Event.RoundTrip
import Hashgraph.Proofs.Exchange.Run
import Hashgraph.Proofs.Replica.Consistency

/-! One exchange makes two nodes agree. What a node takes in from encodings is what its replica
takes in from the events themselves. Each side's list completes what the other lacks, and neither
node waits for a parent, so that both end up with all events of both, with the same tips, and with
nothing left to exchange. -/

namespace Hashgraph

open DagEvent ShadowGraph Replica

variable {events : Set Event}

namespace Tally

/-- What a list of statuses adds to a tally. -/
theorem foldl_count (statuses : List IntakeStatus) (tally : Tally) :
    statuses.foldl count tally =
      { accepted := tally.accepted + statuses.countP (·.isInsertable)
        rejected := tally.rejected + statuses.countP (!·.isInsertable)
        missingParent := tally.missingParent + statuses.countP (·.isRetryable) } := by
  induction statuses generalizing tally with
  | nil => rfl
  | cons status rest ih =>
    rw [List.foldl_cons, ih]
    cases status <;>
      simp [count, IntakeStatus.isInsertable, IntakeStatus.isRetryable] <;>
      omega

end Tally

namespace Node

/-- Encodings are taken in as the events that they stand for. -/
theorem intake_encode {offered : List Event} (wirable : ∀ event ∈ offered, event.IsWirable)
    (tally : Tally) (replica : Replica Event) :
    intake (offered.map Event.encode) tally replica =
      .ok ((replica.addEvents offered).1.foldl Tally.count tally) (replica.addEvents offered).2 := by
  induction offered generalizing tally replica with
  | nil => rfl
  | cons event rest ih =>
    obtain ⟨first, others⟩ := List.forall_mem_cons.mp wirable
    rw [List.map_cons, intake, first.decode_encode]
    exact ih others _ _

section Absorption

def tally (node : Node) (offered : List Event) : Tally :=
  (node.replica.addEvents (offered.take node.batchLimit)).1.foldl Tally.count {}

def absorb (node : Node) (offered : List Event) : Node :=
  { node with
    replica := (node.replica.addEvents (offered.take node.batchLimit)).2
    stats := { node.stats with
      eventsMissingParent := node.stats.eventsMissingParent + (node.tally offered).missingParent } }

variable {node peer : Node} {offered toPeer toNode : List Event}

theorem receive_eq (wirable : ∀ event ∈ offered, event.IsWirable) :
    node.receive (offered.map Event.encode) = .ok (node.tally offered) (node.absorb offered) := by
  rw [receive, ← List.map_take,
    intake_encode fun event mem => wirable event (List.mem_of_mem_take mem)]
  rfl

theorem absorb_replica (fits : offered.length ≤ node.batchLimit) :
    (node.absorb offered).replica = (node.replica.addEvents offered).2 := by
  rw [absorb, List.take_of_length_le fits]

theorem syncWith_eq
    (lists : sendLists node.replica peer.replica node.name peer.name = .ok (toPeer, toNode))
    (peerReads : ∀ event ∈ toPeer, event.IsWirable) (reads : ∀ event ∈ toNode, event.IsWirable) :
    node.syncWith peer =
      .ok ⟨toPeer.length, toNode.length, (node.tally toNode).accepted, (node.tally toNode).rejected⟩
        ((node.absorb toNode).recordSync toPeer.length (node.tally toNode),
          (peer.absorb toPeer).recordSync toNode.length (peer.tally toPeer)) := by
  simp only [syncWith, lists, receive_eq peerReads, receive_eq reads]

/-- In an exchange with itself a node takes its share of both lists, one after the other. -/
theorem syncWithSelf_eq
    (lists : sendLists node.replica node.replica node.name node.name = .ok (toPeer, toNode))
    (peerReads : ∀ event ∈ toPeer, event.IsWirable) (reads : ∀ event ∈ toNode, event.IsWirable) :
    node.syncWithSelf =
      .ok ⟨toPeer.length, toNode.length, ((node.absorb toPeer).tally toNode).accepted,
        ((node.absorb toPeer).tally toNode).rejected⟩
        ((((node.absorb toPeer).absorb toNode).recordSync toPeer.length
          ((node.absorb toPeer).tally toNode)).recordSync toNode.length (node.tally toPeer)) := by
  simp only [syncWithSelf, lists, receive_eq peerReads, receive_eq reads]

end Absorption

/-- A node that takes in a whole list, none of which waits for a parent. -/
theorem receive_encode {node : Node} {offered : List Event}
    (wirable : ∀ event ∈ offered, event.IsWirable) (fits : offered.length ≤ node.batchLimit)
    (settled : ∀ status ∈ (node.replica.addEvents offered).1, status.isRetryable = false) :
    ∃ tally after, node.receive (offered.map Event.encode) = .ok tally after ∧
      after.replica = (node.replica.addEvents offered).2 ∧
      after.stats.eventsMissingParent = node.stats.eventsMissingParent := by
  refine ⟨_, _, receive_eq wirable, absorb_replica fits, ?_⟩
  have none : (node.replica.addEvents offered).1.countP (·.isRetryable) = 0 :=
    List.countP_eq_zero.mpr fun status mem => Bool.eq_false_iff.mp (settled status mem)
  simp only [absorb, tally, List.take_of_length_le fits, Tally.foldl_count, none, Nat.add_zero]

theorem receive_nil (node : Node) : ∃ stats, node.receive [] = .ok {} { node with stats } := by
  rw [receive, List.take_nil]
  exact ⟨_, rfl⟩

theorem syncWith_of_same_tips {node peer : Node} (ours : node.replica.Tracked)
    (theirs : peer.replica.Tracked)
    (same : ∀ tip, tip ∈ node.replica.tips ↔ tip ∈ peer.replica.tips) :
    ∃ node' peer', node.syncWith peer = .ok {} (node', peer') := by
  have nothing := sendLists_of_same_tips ours theirs same node.name peer.name
  obtain ⟨stats, receives⟩ := node.receive_nil
  obtain ⟨peerStats, peerReceives⟩ := peer.receive_nil
  refine ⟨Node.recordSync { node with stats } 0 {},
    Node.recordSync { peer with stats := peerStats } 0 {}, ?_⟩
  simp only [syncWith, nothing, List.map_nil, peerReceives, receives, List.length_nil]

/-- One exchange between nodes at one watermark with nothing expired left. -/
theorem syncWith_converges {node peer : Node} (history : IsHistory events)
    (wirable : ∀ event ∈ events, event.IsWirable) (ours : Reached events node.replica)
    (theirs : Reached events peer.replica)
    (level : node.replica.watermark = peer.replica.watermark) (swept : node.replica.IsSwept)
    (peerSwept : peer.replica.IsSwept) :
    ∃ toPeer toNode,
      sendLists node.replica peer.replica node.name peer.name = .ok (toPeer, toNode) ∧
      (∀ status ∈ (peer.replica.addEvents toPeer).1, status.isRetryable = false) ∧
      (∀ status ∈ (node.replica.addEvents toNode).1, status.isRetryable = false) ∧
      (toPeer.length ≤ peer.batchLimit → toNode.length ≤ node.batchLimit →
        ∃ outcome node' peer', node.syncWith peer = .ok outcome (node', peer') ∧
          node'.stats.eventsMissingParent = node.stats.eventsMissingParent ∧
          peer'.stats.eventsMissingParent = peer.stats.eventsMissingParent ∧
          node'.replica.events = node.replica.events ∪ peer.replica.events ∧
          peer'.replica.events = node.replica.events ∪ peer.replica.events ∧
          (∀ tip, tip ∈ node'.replica.tips ↔ tip ∈ peer'.replica.tips) ∧
          node'.replica.checkConsistency = .ok () ∧ peer'.replica.checkConsistency = .ok () ∧
          ∃ node'' peer'', node'.syncWith peer' = .ok {} (node'', peer'')) := by
  have ours := ours.coherent history
  have theirs := theirs.coherent history
  obtain ⟨toPeer, toNode, lists, forPeer, forNode⟩ :=
    sendLists_ok history ours theirs node.name peer.name
  have peerTakes := forPeer.deliverable_of_level history ours level
  have nodeTakes := forNode.deliverable_of_level history theirs level.symm
  have peerSettled := peerTakes.not_retryable theirs history
  have nodeSettled := nodeTakes.not_retryable ours history
  refine ⟨toPeer, toNode, lists, peerSettled, nodeSettled, ?_⟩
  intro peerFits nodeFits
  obtain ⟨peerTally, peerAfter, peerReceives, peerReplica, peerStats⟩ :=
    receive_encode (fun event listed => wirable event (peerTakes.mem_events event listed))
      peerFits peerSettled
  obtain ⟨tally, after, receives, replica, stats⟩ :=
    receive_encode (fun event listed => wirable event (nodeTakes.mem_events event listed))
      nodeFits nodeSettled
  have nodeEvents := forNode.events_addEvents history theirs ours level.symm peerSwept
  have peerEvents := forPeer.events_addEvents history ours theirs level swept
  rw [Set.union_comm, ← replica] at nodeEvents
  rw [← peerReplica] at peerEvents
  have nodeCoherent := (Steps.addEvents nodeTakes.mem_events).coherent ours history
  have peerCoherent := (Steps.addEvents peerTakes.mem_events).coherent theirs history
  rw [← replica] at nodeCoherent
  rw [← peerReplica] at peerCoherent
  have tips (tip : EventHash) : tip ∈ after.replica.tips ↔ tip ∈ peerAfter.replica.tips := by
    rw [nodeCoherent.mem_tips_iff, peerCoherent.mem_tips_iff, nodeEvents, peerEvents]
  have synced : node.syncWith peer =
      .ok ⟨toPeer.length, toNode.length, tally.accepted, tally.rejected⟩
        (after.recordSync toPeer.length tally, peerAfter.recordSync toNode.length peerTally) := by
    simp only [syncWith, lists, peerReceives, receives]
  exact ⟨_, _, _, synced, stats, peerStats, nodeEvents, peerEvents, tips,
    checkConsistency_eq_ok.mpr nodeCoherent.isConsistent,
    checkConsistency_eq_ok.mpr peerCoherent.isConsistent,
    syncWith_of_same_tips nodeCoherent.toTracked peerCoherent.toTracked tips⟩

def firstEvent : Event := Event.genesis ⟨Vector.replicate 32 1⟩ [] 0

def secondEvent : Event :=
  Content.toEvent ⟨⟨Vector.replicate 32 1⟩, 1, some (descriptor firstEvent), none, [[2]], 5⟩

theorem isHistory_twoEvents : IsHistory {event | event ∈ [firstEvent, secondEvent]} := by
  refine .pair (fun line => ?_) rfl rfl ?_ ?_
  · cases line <;> rfl
  · decide +kernel
  · decide

def holding (name : String) (offered : List Event) : Node :=
  { name, creator := ⟨Vector.replicate 32 0⟩, batchLimit := 2,
    replica := ((∅ : Replica Event).addEvents offered).2 }

/-- A node that has extended the chain and one that has not heard of it. -/
theorem syncWith_converges_extended :
    let node := holding "ann" [firstEvent, secondEvent]
    let peer := holding "bob" [firstEvent]
    ∃ outcome node' peer', node.syncWith peer = .ok outcome (node', peer') ∧
      node'.stats.eventsMissingParent = node.stats.eventsMissingParent ∧
      peer'.stats.eventsMissingParent = peer.stats.eventsMissingParent ∧
      node'.replica.events = node.replica.events ∪ peer.replica.events ∧
      peer'.replica.events = node.replica.events ∪ peer.replica.events ∧
      (∀ tip, tip ∈ node'.replica.tips ↔ tip ∈ peer'.replica.tips) ∧
      node'.replica.checkConsistency = .ok () ∧ peer'.replica.checkConsistency = .ok () ∧
      ∃ node'' peer'', node'.syncWith peer' = .ok {} (node'', peer'') := by
  intro node peer
  have history := isHistory_twoEvents
  have wirable : ∀ event ∈ [firstEvent, secondEvent], event.IsWirable := by
    simp only [List.forall_mem_cons, List.not_mem_nil, false_implies, implies_true, and_true]
    have first : Draft.build { creator := ⟨Vector.replicate 32 1⟩ } 0 = .ok firstEvent := rfl
    have second : Draft.build
        { creator := ⟨Vector.replicate 32 1⟩, selfParent := some (descriptor firstEvent),
          transactions := [[2]] } 5 = .ok secondEvent := rfl
    exact ⟨Draft.isWirable_of_build first (by decide) (by decide),
      Draft.isWirable_of_build second (by decide) (by decide)⟩
  have ours : Reached {event | event ∈ [firstEvent, secondEvent]} node.replica :=
    Steps.reached (Steps.addEvents fun _ mem => mem) .empty
  have theirs : Reached {event | event ∈ [firstEvent, secondEvent]} peer.replica := by
    refine Steps.reached (Steps.addEvents fun event mem => ?_) .empty
    exact List.mem_of_mem_take (i := 1) mem
  have above : ∀ event ∈ [firstEvent, secondEvent],
      Generation.nothingExpired < generation event := by decide
  have oursCoherent := ours.coherent history
  have theirsCoherent := theirs.coherent history
  have level : node.replica.watermark = peer.replica.watermark := by
    simp only [node, peer, holding, addEvents_watermark]
  have swept : node.replica.IsSwept := by
    intro event held
    simp only [node, holding, addEvents_watermark]
    exact above event (oursCoherent.events_subset held)
  have peerSwept : peer.replica.IsSwept := by
    intro event held
    simp only [peer, holding, addEvents_watermark]
    exact above event (theirsCoherent.events_subset held)
  obtain ⟨_, _, lists, forPeer, forNode⟩ :=
    sendLists_ok history oursCoherent theirsCoherent node.name peer.name
  obtain ⟨toPeer, toNode, lists', -, -, converges⟩ :=
    syncWith_converges history wirable ours theirs level swept peerSwept
  obtain ⟨rfl, rfl⟩ := Prod.mk.inj (Except.ok.inj (lists.symm.trans lists'))
  have short {sender : Replica Event} {sendList : List Event} {spared : Set Event}
      (completes : Completes sender spared sendList)
      (coherent : Coherent {event | event ∈ [firstEvent, secondEvent]} sender) :
      sendList.length ≤ 2 :=
    (List.subperm_of_subset completes.nodup.of_map fun event listed =>
      coherent.mem_of_holds (completes.listed event listed)).length_le
  exact converges (short forPeer oursCoherent) (short forNode theirsCoherent)

end Node
end Hashgraph
