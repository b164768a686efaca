import Mathlib.Data.Set.Card
import Hashgraph.Proofs.Exchange.Minimality
import Hashgraph.Proofs.Exchange.SendList
import Hashgraph.Proofs.Network.Run

/-! Exchanges that are cut off. A list that names exactly what a node lacks, in an order in which
the node can take it, may be cut anywhere: what is left of it is still insertable, since a parent has
the smaller generation and so comes before the cut. A node therefore takes as many events of such a
list as its batch limit allows. This rests on true declarations: sorted by generation, an event that
declares a parent to be lower than it is can come before this parent, and is then refused. -/

namespace Hashgraph

open DagEvent Replica

namespace Replica

variable {ε : Type} [DagEvent ε] {events : Set ε} {own peer replica : Replica ε}
  {added child : ε} {offered : List ε}

theorem Deliverable.take (deliverable : Deliverable events peer offered)
    (history : IsHistory events) (count : Nat) : Deliverable events peer (offered.take count) where
  mem_events event mem := deliverable.mem_events event (List.mem_of_mem_take mem)
  sorted := deliverable.sorted.sublist (List.take_sublist count offered)
  parents event mem line descriptor named := by
    have listed := List.mem_of_mem_take mem
    refine (deliverable.parents event listed line descriptor named).imp_right
      (Or.imp_right ?_)
    rintro ⟨older, olderListed, same⟩
    have split := List.take_append_drop count offered
    rw [← split] at olderListed
    refine ⟨older, (List.mem_append.mp olderListed).resolve_right fun later => ?_, same⟩
    have below := history.lt_of_names (deliverable.mem_events event listed)
      (deliverable.mem_events older (List.mem_of_mem_drop later))
      (names_iff.mpr ⟨descriptor, named, same.symm⟩)
    have sorted := deliverable.sorted
    rw [← split] at sorted
    have above := (List.pairwise_append.mp sorted).2.2 event mem older later
    exact Int64.lt_irrefl (Int64.lt_of_le_of_lt above below)

theorem mem_addEvent {hash : EventHash} (mem : hash ∈ (replica.addEvent added).2.graph) :
    hash ∈ replica.graph ∨ hash = DagEvent.hash added := by
  by_cases insertable : replica.classify added = .insertable
  · obtain ⟨graph, inserted, taken⟩ := addEvent_of_insertable insertable
    rw [taken] at mem
    exact ((ShadowGraph.mem_insert inserted).mp mem).symm
  · rw [addEvent_of_refused insertable] at mem
    exact .inl mem

theorem linked_addEvents (linked : replica.graph.Linked) :
    (replica.addEvents offered).2.graph.Linked := by
  induction offered generalizing replica with
  | nil => exact linked
  | cons added rest ih =>
    rw [addEvents_cons]
    refine ih ?_
    by_cases insertable : replica.classify added = .insertable
    · obtain ⟨graph, inserted, taken⟩ := addEvent_of_insertable insertable
      rw [taken]
      exact linked.insert inserted
    · rw [addEvent_of_refused insertable]
      exact linked

/-- From a list sorted by generation an event is not taken if a parent that it names is neither held
nor expired, and is higher than the event itself. -/
theorem not_holds_addEvents_of_late {line : Line} {named : Descriptor}
    (names : parent line child = some named) (pending : ¬ named.generation ≤ replica.watermark)
    (sorted : offered.Pairwise fun first second => generation first ≤ generation second)
    (late : ∀ event ∈ offered, hash event = named.hash → generation child < generation event)
    (absent : ¬ replica.Holds child) (missing : named.hash ∉ replica.graph ∨ child ∉ offered) :
    ¬ (replica.addEvents offered).2.Holds child := by
  induction offered generalizing replica with
  | nil => exact absent
  | cons first rest ih =>
    rw [addEvents_cons]
    refine ih (by rwa [addEvent_watermark]) sorted.of_cons
      (fun event mem => late event (List.mem_cons_of_mem _ mem)) ?_ ?_
    · intro held
      obtain rfl := held.of_addEvent.resolve_left absent
      have parentless := missing.resolve_right fun unlisted => unlisted List.mem_cons_self
      have refused : replica.classify child ≠ .insertable := fun insertable =>
        ((classify_eq_insertable.mp insertable).2.2 line named names).elim parentless pending
      rw [addEvent_of_refused refused] at held
      exact absent held
    · rcases missing with parentless | unlisted
      · by_cases own : hash first = named.hash
        · -- the parent is offered now, so that what remains lies above the child
          refine .inr fun listed => ?_
          have above := List.rel_of_pairwise_cons sorted listed
          exact Int64.lt_irrefl (Int64.lt_of_lt_of_le (late first List.mem_cons_self own) above)
        · exact .inl fun mem => (mem_addEvent mem).elim parentless fun same => own same.symm
      · exact .inr fun listed => unlisted (List.mem_cons_of_mem _ listed)

end Replica

variable {ε : Type} [DagEvent ε] {events : Set ε} {own peer caller listener : Replica ε}

theorem sendLists_exact (history : IsHistory events) (ours : Coherent events caller)
    (theirs : Coherent events listener) (unforked : IsUnforked (caller.events ∪ listener.events))
    (level : caller.watermark = listener.watermark) (swept : caller.IsSwept)
    (peerSwept : listener.IsSwept) (callerName listenerName : String) :
    ∃ toListener toCaller, sendLists caller listener callerName listenerName =
        .ok (toListener, toCaller) ∧
      Exact events caller listener toListener ∧ Exact events listener caller toCaller := by
  obtain ⟨mine, theirs', exchanged, informed, peerInformed⟩ :=
    exchangeKnowledge_ok ours.toTracked theirs.toTracked callerName listenerName
  obtain ⟨toListener, _, finished, exact⟩ :=
    informed.finish_exact history ours theirs unforked level swept
  obtain ⟨toCaller, _, peerFinished, peerExact⟩ :=
    peerInformed.finish_exact history theirs ours (Set.union_comm .. ▸ unforked) level.symm peerSwept
  refine ⟨toListener, toCaller, ?_, exact, peerExact⟩
  simp only [sendLists, exchanged, finished, peerFinished, settlePhase, bind, Except.bind, pure,
    Except.pure]

theorem Session.Informed.finish_sorted {session : Session ε} (informed : session.Informed own peer)
    (tracked : own.Tracked) : ∃ sendList after, own.finish session = .ok sendList after ∧
      (∀ event ∈ sendList, own.Holds event) ∧
      sendList.Pairwise fun first second => generation first ≤ generation second := by
  obtain ⟨briefed, facts, answered⟩ := informed.learnt
  obtain ⟨-, -, held⟩ := walkAll_kept tracked.linked
    (facts.filed.congr answered.sendList answered.queued)
  refine ⟨_, _, finish_eq_ok.mpr ⟨informed.ready, rfl, rfl⟩, ?_, pairwise_mergeSort_generation _⟩
  intro event listed
  refine (held event (List.mem_mergeSort.mp listed)).elim (fun earlier => ?_) id
  rw [answered.sendList] at earlier
  exact (facts.mem_sendList.mp earlier).1

theorem sendLists_sorted (ours : caller.Tracked) (theirs : listener.Tracked)
    (callerName listenerName : String) :
    ∃ toListener toCaller, sendLists caller listener callerName listenerName =
        .ok (toListener, toCaller) ∧
      (∀ event ∈ toListener, caller.Holds event) ∧ (∀ event ∈ toCaller, listener.Holds event) ∧
      toListener.Pairwise fun first second => generation first ≤ generation second := by
  obtain ⟨mine, other, exchanged, informed, peerInformed⟩ :=
    exchangeKnowledge_ok ours theirs callerName listenerName
  obtain ⟨toListener, _, finished, held, sorted⟩ := informed.finish_sorted ours
  obtain ⟨toCaller, _, peerFinished, peerHeld, -⟩ := peerInformed.finish_sorted theirs
  refine ⟨toListener, toCaller, ?_, held, peerHeld, sorted⟩
  simp only [sendLists, exchanged, finished, peerFinished, settlePhase, bind, Except.bind, pure,
    Except.pure]

/-- What of an exact list a replica is offered it takes. -/
theorem Replica.Exact.addEvents_take {offered : List ε} (exact : Exact events own peer offered)
    (history : IsHistory events) (theirs : Coherent events peer) (count : Nat) :
    (peer.addEvents (offered.take count)).1 =
        List.replicate (min count offered.length) .insertable ∧
      (peer.addEvents (offered.take count)).2.events =
        peer.events ∪ {event | event ∈ offered.take count} := by
  have deliverable := exact.toDeliverable.take history count
  have uncovered (event : ε) (listed : event ∈ offered.take count) : ¬ peer.Covers event :=
    exact.uncovered event (List.mem_of_mem_take listed)
  constructor
  · rw [← List.length_take]
    have nodup := exact.nodup.sublist (List.take_sublist count offered)
    exact deliverable.insertable theirs history nodup uncovered
  · have steps : Steps events peer (peer.addEvents (offered.take count)).2 :=
      .addEvents deliverable.mem_events
    have after := steps.coherent theirs history
    ext event
    rw [Set.mem_union, mem_events_iff after.linked, mem_events_iff theirs.linked]
    constructor
    · exact Holds.of_addEvents
    · rintro (held | listed)
      · exact held.addEvents
      · refine (deliverable.covers theirs history listed).resolve_right fun expired => ?_
        rw [addEvents_watermark] at expired
        exact uncovered event listed (.inr expired)

omit [DagEvent ε] in
theorem ncard_setOf_mem {listed : List ε} (nodup : listed.Nodup) :
    {event | event ∈ listed}.ncard = listed.length := by
  classical
  rw [← List.coe_toFinset, Set.ncard_coe_finset, List.toFinset_card_of_nodup nodup]

omit [DagEvent ε] in
theorem ncard_le_length {held : Set ε} {listed : List ε}
    (subset : held ⊆ {event | event ∈ listed}) :
    held.ncard ≤ listed.length := by
  classical
  rw [← List.coe_toFinset] at subset
  calc held.ncard
      ≤ (listed.toFinset : Set ε).ncard := Set.ncard_le_ncard subset (Finset.finite_toSet _)
    _ = listed.toFinset.card := Set.ncard_coe_finset _
    _ ≤ listed.length := List.toFinset_card_le listed

theorem Replica.Exact.ncard_eq {offered : List ε} (exact : Exact events own peer offered) :
    (own.events \ peer.events).ncard = offered.length := by
  rw [← ncard_setOf_mem exact.nodup]
  exact congrArg Set.ncard (Set.ext fun _ => exact.mem_iff.symm)

namespace Node

/-- What an exchange makes of a node: it takes as many of the events that it lacks as its batch
limit allows, and rejects none. -/
structure TakesBatch (node peer after : Node) : Prop where
  keeps : node.replica.events ⊆ after.replica.events
  takes : after.replica.events ⊆ node.replica.events ∪ peer.replica.events
  ncard_eq : (after.replica.events \ node.replica.events).ncard =
    min node.batchLimit (peer.replica.events \ node.replica.events).ncard
  rejected : after.stats.eventsRejected = node.stats.eventsRejected
  consistent : after.replica.checkConsistency = .ok ()
  batchLimit : after.batchLimit = node.batchLimit
  watermark : after.replica.watermark = node.replica.watermark

variable {created : List Event} {node peer : Node} {offered : List Event}

theorem TakesBatch.taken_subset {after : Node} (takes : node.TakesBatch peer after) :
    after.replica.events \ node.replica.events ⊆ peer.replica.events \ node.replica.events :=
  fun _ new => ⟨(takes.takes new.1).resolve_left new.2, new.2⟩

theorem tally_of_exact {events : Set Event} (exact : Exact events peer.replica node.replica offered)
    (history : IsHistory events) (ours : Coherent events node.replica) :
    node.tally offered = { accepted := min node.batchLimit offered.length } := by
  rw [tally, (exact.addEvents_take history ours node.batchLimit).1, Tally.foldl_count]
  simp [List.countP_replicate, IntakeStatus.isInsertable, IntakeStatus.isRetryable]

theorem Sound.takesBatch (ours : node.Sound created) (history : IsHistory {event | event ∈ created})
    (exact : Exact {event | event ∈ created} peer.replica node.replica offered) (sent : Nat) :
    node.TakesBatch peer ((node.absorb offered).recordSync sent (node.tally offered)) := by
  have coherent := ours.reached.coherent history
  obtain ⟨-, events⟩ := exact.addEvents_take history coherent node.batchLimit
  have steps : Steps {event | event ∈ created} node.replica (node.absorb offered).replica :=
    .addEvents (exact.toDeliverable.take history node.batchLimit).mem_events
  have lacked : {event | event ∈ offered.take node.batchLimit} ⊆
      peer.replica.events \ node.replica.events :=
    fun event taken => exact.mem_iff.mp (List.mem_of_mem_take taken)
  refine ⟨?_, ?_, ?_, ?_, checkConsistency_eq_ok.mpr (steps.coherent coherent history).isConsistent,
    rfl, addEvents_watermark⟩
  · exact events ▸ Set.subset_union_left
  · exact events ▸ Set.union_subset_union_right _ fun event taken => (lacked taken).1
  · have gained : (node.absorb offered).replica.events \ node.replica.events =
        {event | event ∈ offered.take node.batchLimit} := by
      refine (congrArg (· \ node.replica.events) events).trans (Set.union_sdiff_cancel_left ?_)
      exact fun event both => (lacked both.2).2 both.1
    have nodup := exact.nodup.sublist (List.take_sublist node.batchLimit offered)
    exact (congrArg Set.ncard gained).trans
      (by rw [ncard_setOf_mem nodup, List.length_take, exact.ncard_eq])
  · rw [tally_of_exact exact history coherent]
    rfl

/-- Between sound nodes at one watermark whose events do not fork, an exchange succeeds, and each
node takes a batch of what it lacks. -/
theorem Sound.syncWith_takesBatch (ours : node.Sound created) (theirs : peer.Sound created)
    (wirable : ∀ event ∈ created, event.IsWirable) (history : IsHistory {event | event ∈ created})
    (unforked : IsUnforked {event | event ∈ created})
    (level : node.replica.watermark = peer.replica.watermark) :
    ∃ outcome node' peer', node.syncWith peer = .ok outcome (node', peer') ∧ outcome.rejected = 0 ∧
      node.TakesBatch peer node' ∧ peer.TakesBatch node peer' := by
  have coherent := ours.reached.coherent history
  have peerCoherent := theirs.reached.coherent history
  obtain ⟨toPeer, toNode, lists, forPeer, forNode⟩ :=
    sendLists_exact history coherent peerCoherent
      (unforked.mono (Set.union_subset coherent.events_subset peerCoherent.events_subset)) level
      ours.swept theirs.swept node.name peer.name
  refine ⟨_, _, _, syncWith_eq lists ?_ ?_, ?_, ours.takesBatch history forNode _,
    theirs.takesBatch history forPeer _⟩
  · exact fun event listed => wirable event (forPeer.mem_events event listed)
  · exact fun event listed => wirable event (forNode.mem_events event listed)
  · rw [tally_of_exact forNode history coherent]

section Late

variable {node' peer' : Node} {outcome : SyncOutcome} {child : Event} {line : Line}
  {named : Descriptor} (tracked : node.replica.Tracked) (peerTracked : peer.replica.Tracked)
  (wirable : ∀ event, node.replica.Holds event → event.IsWirable)
  (peerWirable : ∀ event, peer.replica.Holds event → event.IsWirable)
  (names : parent line child = some named) (pending : ¬ named.generation ≤ peer.replica.watermark)
  (late : ∀ event, node.replica.Holds event → hash event = named.hash →
    generation child < generation event)

include tracked peerTracked wirable peerWirable names pending late

/-- An event that names a parent with a generation below its own, when the parent in fact lies above
it, is not taken by a peer that lacks both. -/
theorem not_mem_events_of_late (absent : ¬ peer.replica.Holds child)
    (missing : named.hash ∉ peer.replica.graph)
    (synced : node.syncWith peer = .ok outcome (node', peer')) :
    child ∉ peer'.replica.events := by
  obtain ⟨toPeer, toNode, lists, held, peerHeld, sorted⟩ :=
    sendLists_sorted tracked peerTracked node.name peer.name
  cases (syncWith_eq lists (fun event listed => wirable event (held event listed))
    fun event listed => peerWirable event (peerHeld event listed)).symm.trans synced
  refine fun mem => absurd ((mem_events_iff (linked_addEvents peerTracked.linked)).mp mem) ?_
  exact not_holds_addEvents_of_late names pending (sorted.sublist (List.take_sublist ..))
    (fun event taken => late event (held event (List.mem_of_mem_take taken))) absent (.inl missing)

theorem not_takesBatch_of_late (held : node.replica.Holds child) (absent : ¬ peer.replica.Holds child)
    (missing : named.hash ∉ peer.replica.graph) (finite : node.replica.events.Finite)
    (room : (node.replica.events \ peer.replica.events).ncard ≤ peer.batchLimit)
    (synced : node.syncWith peer = .ok outcome (node', peer')) :
    ¬ peer.TakesBatch node peer' := by
  intro takes
  have refused := not_mem_events_of_late tracked peerTracked wirable peerWirable names pending late
    absent missing synced
  have all := Set.eq_of_subset_of_ncard_le takes.taken_subset
    (takes.ncard_eq.trans (min_eq_right room)).ge (finite.subset Set.sdiff_subset)
  have lacked : child ∈ node.replica.events \ peer.replica.events :=
    ⟨(mem_events_iff tracked.linked).mpr held,
      fun mem => absent ((mem_events_iff peerTracked.linked).mp mem)⟩
  exact refused (all ▸ lacked).1

end Late

end Node
end Hashgraph
