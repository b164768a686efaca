import Hashgraph.Proofs.Exchange.Totality
import Hashgraph.Proofs.Node.Convergence
import Hashgraph.Proofs.Node.Operations
import Hashgraph.Proofs.Replica.Filter
import Hashgraph.Proofs.Replica.Validity

/-! The counters of a node against what it holds. A shadow comes in when an event is created or
accepted, and it leaves in a sweep; intake sorts what an exchange brings into accepted and rejected
events. None of this depends on what the events say. -/

namespace Hashgraph

open DagEvent Replica

namespace ShadowGraph

variable {ε : Type} [DagEvent ε] {g g' : ShadowGraph ε} {event : ε}

theorem size_insert (inserted : g.insert event = .ok g') : g'.size = g.size + 1 := by
  have absent := not_mem_of_insert inserted
  have size : (g.adopted event).size = g.size := (size_adjust ..).trans (size_adjust ..)
  have fresh : DagEvent.hash event ∉ g.adopted event := by
    rwa [mem_iff_event?, event?_adopted, ← mem_iff_event?]
  rw [insert, if_neg absent] at inserted
  obtain rfl := Except.ok.inj inserted
  calc ((g.adopted event).shadows.insert (DagEvent.hash event) { event }).size
      = (g.adopted event).size + 1 := Std.ExtTreeMap.size_insert.trans (if_neg fresh)
    _ = g.size + 1 := congrArg (· + 1) size

end ShadowGraph

namespace Replica

variable {ε : Type} [DagEvent ε] {replica : Replica ε} {event : ε}

theorem size_addEvent_of_insertable (insertable : replica.classify event = .insertable) :
    (replica.addEvent event).2.graph.size = replica.graph.size + 1 := by
  obtain ⟨graph, inserted, added⟩ := addEvent_of_insertable insertable
  rw [added]
  exact ShadowGraph.size_insert inserted

/-- Intake adds a shadow for each event that it takes in. -/
theorem size_addEvents (replica : Replica ε) (offered : List ε) :
    (replica.addEvents offered).2.graph.size =
      replica.graph.size + (replica.addEvents offered).1.countP (·.isInsertable) := by
  induction offered generalizing replica with
  | nil => rfl
  | cons event rest ih =>
    rw [addEvents_cons, ih, List.countP_cons]
    by_cases insertable : replica.classify event = .insertable
    · have status : (replica.addEvent event).1.isInsertable = true := by
        rw [addEvent_fst, insertable]
        rfl
      rw [size_addEvent_of_insertable insertable, if_pos status]
      omega
    · have status : ¬ (replica.addEvent event).1.isInsertable = true := by
        rw [addEvent_fst]
        exact fun taken => insertable (of_decide_eq_true taken)
      rw [addEvent_of_refused insertable] at status ⊢
      rw [if_neg status, Nat.add_zero]

theorem event?_of_expireTo (linked : replica.graph.Linked) {watermark : Generation}
    {hash : EventHash} (held : (replica.expireTo watermark).2.event? hash = some event) :
    replica.event? hash = some event := by
  unfold expireTo at held
  split at held
  · exact held
  · have moved : (replica.setWatermark watermark).graph.Linked := linked
    exact (expire_trimmed moved).event?_of_event? held

theorem Valid.addEvents (valid : replica.Valid) (offered : List ε) :
    (replica.addEvents offered).2.Valid := by
  induction offered generalizing replica with
  | nil => exact valid
  | cons event rest ih => exact ih (valid.addEvent event)

/-- A sweep past everything that is held counts all of it. -/
theorem Coherent.expireTo_all {events : Set ε} (coherent : Coherent events replica)
    (history : IsHistory events) {watermark : Generation} (raises : replica.watermark < watermark)
    (old : ∀ event ∈ replica.events, generation event ≤ watermark) :
    (replica.expireTo watermark).1 = replica.graph.size := by
  have sifted := coherent.settled.toGathered.expireTo_sifted history.isAscending
    (Int64.ne_of_lt raises).symm
  have empty : (replica.expireTo watermark).2.graph.shadows = ∅ := by
    refine Std.ExtTreeMap.eq_empty_iff_forall_not_mem.mpr fun hash held => ?_
    obtain ⟨event, found⟩ := ShadowGraph.mem_iff_event?.mp held
    rw [sifted.event?_eq, Option.filter_eq_some_iff, decide_eq_true_iff] at found
    exact Int64.not_le.mpr found.2 (old event ⟨hash, found.1⟩)
  rw [← replica.expireTo_count watermark, ShadowGraph.size, empty]
  exact (Nat.add_zero _).symm

end Replica

namespace Node

variable {node : Node} {offered : List Event} {uncounted accepted rejected : Nat}

theorem tally_accepted_add_rejected (node : Node) (offered : List Event) :
    (node.tally offered).accepted + (node.tally offered).rejected =
      min offered.length node.batchLimit := by
  have total := List.length_eq_countP_add_countP IntakeStatus.isInsertable
    (l := (node.replica.addEvents (offered.take node.batchLimit)).1)
  simp only [Bool.not_eq_true, Bool.decide_eq_false, length_addEvents, List.length_take] at total
  simp only [tally, Tally.foldl_count, Nat.zero_add]
  rw [Nat.min_comm]
  exact total.symm

theorem tally_missingParent_le (node : Node) (offered : List Event) :
    (node.tally offered).missingParent ≤ (node.tally offered).rejected := by
  rw [tally, Tally.foldl_count]
  refine Nat.add_le_add_left (List.countP_mono_left fun status _ retryable => ?_) 0
  cases status <;> first | rfl | contradiction

/-- The counters account for the shadows, up to what was removed past the counters. -/
structure Balanced (uncounted : Nat) (node : Node) : Prop where
  shadows : node.replica.graph.size + node.stats.shadowsExpired + uncounted =
    node.stats.eventsCreated + node.stats.eventsAccepted
  missing : node.stats.eventsMissingParent ≤ node.stats.eventsRejected

/-- A node that is balanced up to what an exchange has brought but not recorded yet. -/
structure Accounted (uncounted accepted rejected : Nat) (node : Node) : Prop where
  valid : node.replica.Valid
  wirable : ∀ event ∈ node.replica.events, event.IsWirable
  balance : node.replica.graph.size + node.stats.shadowsExpired + uncounted =
    node.stats.eventsCreated + node.stats.eventsAccepted + accepted
  missing : node.stats.eventsMissingParent ≤ node.stats.eventsRejected + rejected

namespace Accounted

theorem balanced (accounted : node.Accounted uncounted 0 0) : node.Balanced uncounted :=
  ⟨accounted.balance, accounted.missing⟩

theorem fresh (blank : node.replica = ∅) (idle : node.stats = {}) : node.Accounted 0 0 0 := by
  refine ⟨blank ▸ .empty, ?_, ?_, ?_⟩
  · rintro event ⟨hash, held⟩
    rw [blank] at held
    exact (Option.some_ne_none event (held.symm.trans (ShadowGraph.event?_empty hash))).elim
  · rw [blank, idle]
    rfl
  · rw [idle]

theorem extend (accounted : node.Accounted uncounted accepted rejected) {event : Event}
    (wirable : event.IsWirable) (insertable : node.replica.classify event = .insertable) :
    (node.extend event).Accounted uncounted accepted rejected := by
  have size := size_addEvent_of_insertable insertable
  have valid := accounted.valid.addEvent event
  refine ⟨valid, fun other mem => ?_, ?_, accounted.missing⟩
  · rcases ((mem_events_iff valid.linked).mp mem).of_addEvent with held | rfl
    · exact accounted.wirable other ((mem_events_iff accounted.valid.linked).mpr held)
    · exact wirable
  · have balance := accounted.balance
    simp only [Node.extend, size]
    omega

/-- What a node takes of a list is accounted for, but still to be recorded. -/
theorem absorb (accounted : node.Accounted uncounted accepted rejected)
    (wirable : ∀ event ∈ offered, event.IsWirable) :
    (node.absorb offered).Accounted uncounted (accepted + (node.tally offered).accepted)
      (rejected + (node.tally offered).rejected) := by
  have size := size_addEvents node.replica (offered.take node.batchLimit)
  have valid := accounted.valid.addEvents (offered.take node.batchLimit)
  refine ⟨valid, fun event mem => ?_, ?_, ?_⟩
  · rcases ((mem_events_iff valid.linked).mp mem).of_addEvents with held | listed
    · exact accounted.wirable event ((mem_events_iff accounted.valid.linked).mpr held)
    · exact wirable event (List.mem_of_mem_take listed)
  · have balance := accounted.balance
    simp only [Node.absorb, tally, size, Tally.foldl_count]
    omega
  · have before := accounted.missing
    have among := node.tally_missingParent_le offered
    simp only [Node.absorb]
    omega

theorem recordSync {tally : Tally} (sent : Nat)
    (accounted : node.Accounted uncounted (accepted + tally.accepted) (rejected + tally.rejected)) :
    (node.recordSync sent tally).Accounted uncounted accepted rejected := by
  have balance := accounted.balance
  have missing := accounted.missing
  refine ⟨accounted.valid, accounted.wirable, ?_, ?_⟩
  · simp only [Node.recordSync]
    omega
  · simp only [Node.recordSync]
    omega

/-- A sweep keeps the account, if what it removes is counted one way or the other. -/
theorem expireTo (accounted : node.Accounted uncounted accepted rejected) (watermark : Generation)
    {stats : NodeStats} (missed : Nat)
    (counted : stats.shadowsExpired + missed =
      node.stats.shadowsExpired + (node.replica.expireTo watermark).1)
    (others : { stats with shadowsExpired := node.stats.shadowsExpired } = node.stats) :
    Accounted (uncounted + missed) accepted rejected
      { node with replica := (node.replica.expireTo watermark).2, stats } := by
  have size := node.replica.expireTo_count watermark
  have balance := accounted.balance
  have missing := accounted.missing
  rw [← others] at balance missing
  refine ⟨accounted.valid.expireTo watermark, fun event mem => ?_, ?_, missing⟩
  · obtain ⟨hash, held⟩ := mem
    exact accounted.wirable event ⟨hash, event?_of_expireTo accounted.valid.linked held⟩
  · dsimp only at balance counted ⊢
    omega

theorem expireRetaining (accounted : node.Accounted uncounted accepted rejected)
    (retained : Generation) :
    (node.expireRetaining retained).2.Accounted uncounted accepted rejected := by
  unfold Node.expireRetaining
  split
  · exact accounted
  · dsimp only
    split
    · exact accounted
    · exact accounted.expireTo _ 0 (Nat.add_zero _) rfl

end Accounted

def brought (node : Node) : Nat := node.stats.eventsAccepted + node.stats.eventsRejected

theorem brought_recordSync (node : Node) (sent : Nat) (tally : Tally) :
    (node.recordSync sent tally).brought = node.brought + (tally.accepted + tally.rejected) := by
  simp only [brought, recordSync]
  omega

section Exchanges

variable {peer : Node} {missed : Nat}

/-- An exchange succeeds, whatever the nodes hold, and it counts for each node what the node takes of
the list for it. -/
theorem Accounted.syncWith (ours : node.Accounted uncounted 0 0) (theirs : peer.Accounted missed 0 0) :
    ∃ toPeer toNode outcome node' peer',
      sendLists node.replica peer.replica node.name peer.name = .ok (toPeer, toNode) ∧
      node.syncWith peer = .ok outcome (node', peer') ∧
      (node'.Accounted uncounted 0 0 ∧ peer'.Accounted missed 0 0) ∧
      node'.brought = node.brought + min toNode.length node.batchLimit ∧
      peer'.brought = peer.brought + min toPeer.length peer.batchLimit := by
  obtain ⟨toPeer, toNode, lists, listed, peerListed⟩ :=
    sendLists_total node.replica peer.replica node.name peer.name
  have reads : ∀ event ∈ toNode, event.IsWirable :=
    fun event mem => theirs.wirable event (peerListed event mem)
  have peerReads : ∀ event ∈ toPeer, event.IsWirable :=
    fun event mem => ours.wirable event (listed event mem)
  refine ⟨toPeer, toNode, _, _, _, lists, syncWith_eq lists peerReads reads,
    ⟨(ours.absorb reads).recordSync _, (theirs.absorb peerReads).recordSync _⟩, ?_, ?_⟩
  · rw [brought_recordSync, tally_accepted_add_rejected]
    rfl
  · rw [brought_recordSync, tally_accepted_add_rejected]
    rfl

/-- An exchange of a node with itself brings it both lists. -/
theorem Accounted.syncWithSelf (accounted : node.Accounted uncounted 0 0) :
    ∃ toPeer toNode outcome node',
      sendLists node.replica node.replica node.name node.name = .ok (toPeer, toNode) ∧
      node.syncWithSelf = .ok outcome node' ∧ node'.Accounted uncounted 0 0 ∧
      node'.brought =
        node.brought + min toNode.length node.batchLimit + min toPeer.length node.batchLimit := by
  obtain ⟨toPeer, toNode, lists, listed, peerListed⟩ :=
    sendLists_total node.replica node.replica node.name node.name
  have reads : ∀ event ∈ toNode, event.IsWirable :=
    fun event mem => accounted.wirable event (peerListed event mem)
  have peerReads : ∀ event ∈ toPeer, event.IsWirable :=
    fun event mem => accounted.wirable event (listed event mem)
  have absorbed := (accounted.absorb peerReads).absorb reads
  refine ⟨toPeer, toNode, _, _, lists, syncWithSelf_eq lists peerReads reads,
    (absorbed.recordSync _).recordSync _, ?_⟩
  rw [brought_recordSync, brought_recordSync, tally_accepted_add_rejected,
    tally_accepted_add_rejected]
  rfl

end Exchanges

theorem insertable_of_createWithin {otherParent : Option Descriptor} {transactions : List Bytes}
    {times : List Timestamp} {event : Event} {after : Node}
    (created : createWithin otherParent transactions times node = .ok event after) :
    node.replica.classify event = .insertable := by
  rcases node.createWithin_cases otherParent transactions times with
    ⟨made, now, -, -, insertable, succeeded⟩ | ⟨error, failed⟩
  · cases succeeded.symm.trans created
    exact insertable
  · cases failed.symm.trans created

end Node
end Hashgraph
