import Hashgraph.Proofs.Network.Lineage
import Hashgraph.Proofs.Node.Ledger

/-! What every run of a network grants, whatever descriptors it was given as other-parents. A node
holds none but created events and covers the last one that it made, so that its chain can always go
on. Where moreover no two events share a hash, replicas are swept, and of the nodes with distinct
creators each alone extends its chain. -/

namespace Hashgraph

open DagEvent Replica

variable {created more : List Event}

namespace Replica

variable {ε : Type} [DagEvent ε] {replica : Replica ε} {event : ε}

/-- An insertable event is held once it was offered. -/
theorem holds_addEvent_of_insertable (insertable : replica.classify event = .insertable) :
    (replica.addEvent event).2.Holds event := by
  obtain ⟨graph, inserted, added⟩ := addEvent_of_insertable insertable
  rw [added]
  exact (ShadowGraph.event?_insert inserted _).trans (if_pos rfl)

theorem Holds.expireTo (held : replica.Holds event) (linked : replica.graph.Linked)
    {watermark : Generation} (unexpired : watermark < generation event) :
    (replica.expireTo watermark).2.Holds event := by
  unfold Replica.expireTo
  split
  · exact held
  · have moved : (replica.setWatermark watermark).graph.Linked := linked
    have spared : hash event ∉ replica.graph.expired watermark := by
      rw [ShadowGraph.mem_expired held]
      exact Int64.not_le.mpr unexpired
    obtain ⟨gone, pruned, expired⟩ := expire_trimmed moved
    exact (pruned.event?_kept fun mem => spared (expired mem)).trans held

/-- What is covered stays covered when the watermark rises. -/
theorem Covers.expireTo (covered : replica.Covers event) (linked : replica.graph.Linked)
    {watermark : Generation} (raises : replica.watermark ≤ watermark) :
    (replica.expireTo watermark).2.Covers event := by
  by_cases expired : generation event ≤ watermark
  · exact .inr (by rwa [expireTo_watermark])
  · have below : ¬ generation event ≤ replica.watermark :=
      fun earlier => expired (Int64.le_trans earlier raises)
    exact .inl ((covered.resolve_right below).expireTo linked (Int64.not_le.mp expired))

theorem Gathered.mono {events wider : Set ε} (gathered : Gathered events replica)
    (subset : events ⊆ wider) : Gathered wider replica where
  toTracked := gathered.toTracked
  mem_events held := subset (gathered.mem_events held)

end Replica

namespace Node

/-- A node that holds none but the created events, and that covers the last event it made. -/
structure Grounded (created : List Event) (node : Node) : Prop where
  valid : node.replica.Valid
  within : node.replica.events ⊆ {event | event ∈ created}
  own : ∀ named ∈ node.lastEvent, ∃ event ∈ created, descriptor event = named ∧
    node.replica.Covers event
  orderly : Set.InjOn DagEvent.hash {event | event ∈ created} →
    Gathered {event | event ∈ created} node.replica ∧ node.replica.IsSwept

/-- What exchanges make of a node: it is offered some of the created events, and its own chain stays
as it is. -/
structure Receives (created : List Event) (node after : Node) : Prop where
  chain_eq : after.chain = node.chain
  replica_eq : ∃ offered : List Event, (∀ event ∈ offered, event ∈ created) ∧
    after.replica = (node.replica.addEvents offered).2

variable {node peer after : Node} {event : Event} {offered : List Event}

namespace Receives

theorem refl (created : List Event) (node : Node) : node.Receives created node :=
  ⟨rfl, [], fun _ mem => (List.not_mem_nil mem).elim, rfl⟩

theorem absorb (received : node.Receives created after)
    (among : ∀ event ∈ offered, event ∈ created) :
    node.Receives created (after.absorb offered) := by
  obtain ⟨chain_eq, earlier, earlierAmong, replica_eq⟩ := received
  refine ⟨chain_eq, earlier ++ offered.take after.batchLimit, ?_, ?_⟩
  · rw [List.forall_mem_append]
    exact ⟨earlierAmong, fun event mem => among event (List.mem_of_mem_take mem)⟩
  · rw [addEvents_append, ← replica_eq]
    rfl

theorem recordSync (received : node.Receives created after) (sent : Nat) (tally : Tally) :
    node.Receives created (after.recordSync sent tally) := ⟨received.chain_eq, received.replica_eq⟩

end Receives

namespace Grounded

theorem fresh (blank : node.replica = ∅) (idle : node.lastEvent = none) : node.Grounded [] where
  valid := blank ▸ .empty
  within := by
    rintro event ⟨hash, held⟩
    rw [blank] at held
    exact (Option.some_ne_none event (held.symm.trans (ShadowGraph.event?_empty hash))).elim
  own named mem := by
    rw [idle] at mem
    contradiction
  orderly _ := ⟨blank ▸ .empty, blank ▸ .empty⟩

theorem mono (grounded : node.Grounded created) (subset : created ⊆ more) :
    node.Grounded more where
  valid := grounded.valid
  within := grounded.within.trans fun _ mem => subset mem
  own named mem := by
    obtain ⟨event, made, described⟩ := grounded.own named mem
    exact ⟨event, subset made, described⟩
  orderly injective := by
    obtain ⟨gathered, swept⟩ := grounded.orderly (injective.mono fun _ mem => subset mem)
    exact ⟨gathered.mono fun _ mem => subset mem, swept⟩

theorem refers (grounded : node.Grounded created) : Refers created node.lastEvent := by
  intro named mem
  obtain ⟨event, made, same, -⟩ := grounded.own named mem
  exact ⟨event, made, same⟩

theorem mem_of_holds (grounded : node.Grounded created) (held : node.replica.Holds event) :
    event ∈ created := grounded.within ⟨_, held⟩

theorem extend (grounded : node.Grounded created) (rooted : IsRooted created)
    (made : event ∈ created) (insertable : node.replica.classify event = .insertable) :
    (node.extend event).Grounded created where
  valid := grounded.valid.addEvent event
  within := by
    intro other mem
    have valid := grounded.valid.addEvent event
    rcases ((mem_events_iff valid.linked).mp mem).of_addEvent with held | rfl
    · exact grounded.mem_of_holds held
    · exact made
  own named mem := by
    cases Option.some.inj mem
    exact ⟨event, made, rfl, .inl (holds_addEvent_of_insertable insertable)⟩
  orderly injective := by
    obtain ⟨gathered, swept⟩ := grounded.orderly injective
    exact ⟨gathered.addEvent (rooted.isAscending injective) made, swept.addEvent event⟩

theorem receives (grounded : node.Grounded created) (rooted : IsRooted created)
    (received : node.Receives created after) : after.Grounded created := by
  obtain ⟨chain_eq, offered, among, replica_eq⟩ := received
  have last : after.lastEvent = node.lastEvent := congrArg Prod.snd chain_eq
  have valid : after.replica.Valid := replica_eq ▸ grounded.valid.addEvents offered
  refine ⟨valid, ?_, ?_, ?_⟩
  · intro event mem
    have held := (mem_events_iff valid.linked).mp mem
    rw [replica_eq] at held
    exact held.of_addEvents.elim grounded.mem_of_holds (among event)
  · intro named mem
    obtain ⟨event, made, same, covered⟩ := grounded.own named (last ▸ mem)
    exact ⟨event, made, same, replica_eq ▸ covered.addEvents⟩
  · intro injective
    obtain ⟨gathered, swept⟩ := grounded.orderly injective
    rw [replica_eq]
    exact ⟨gathered.addEvents (rooted.isAscending injective) among, swept.addEvents⟩

theorem expireRetaining (grounded : node.Grounded created) (rooted : IsRooted created)
    (retained : Generation) : (node.expireRetaining retained).2.Grounded created := by
  rcases node.expireRetaining_cases retained with unchanged | ⟨target, stats, raises, expired⟩
  · rw [unchanged]
    exact grounded
  · rw [expired]
    have linked := grounded.valid.linked
    refine ⟨grounded.valid.expireTo target, ?_, ?_, ?_⟩
    · rintro event ⟨hash, held⟩
      exact grounded.within ⟨hash, event?_of_expireTo linked held⟩
    · intro named mem
      obtain ⟨event, made, same, covered⟩ := grounded.own named mem
      exact ⟨event, made, same, covered.expireTo linked (Int64.le_of_lt raises)⟩
    · intro injective
      obtain ⟨gathered, swept⟩ := grounded.orderly injective
      have ascending : IsAscending {event | event ∈ created} := rooted.isAscending injective
      exact ⟨gathered.expireTo ascending target, gathered.isSwept_expireTo ascending swept target⟩

/-- An exchange of grounded nodes succeeds and only brings them created events. -/
theorem syncWith (ours : node.Grounded created) (theirs : peer.Grounded created)
    (wirable : ∀ event ∈ created, event.IsWirable) : ∃ outcome node' peer',
      node.syncWith peer = .ok outcome (node', peer') ∧ node.Receives created node' ∧
        peer.Receives created peer' := by
  obtain ⟨toPeer, toNode, lists, listed, peerListed⟩ :=
    sendLists_total node.replica peer.replica node.name peer.name
  have among : ∀ event ∈ toNode, event ∈ created :=
    fun event mem => theirs.within (peerListed event mem)
  have peerAmong : ∀ event ∈ toPeer, event ∈ created :=
    fun event mem => ours.within (listed event mem)
  have synced := syncWith_eq lists (fun event mem => wirable event (peerAmong event mem))
    fun event mem => wirable event (among event mem)
  exact ⟨_, _, _, synced, ((Receives.refl created node).absorb among).recordSync ..,
    ((Receives.refl created peer).absorb peerAmong).recordSync ..⟩

theorem syncWithSelf (grounded : node.Grounded created)
    (wirable : ∀ event ∈ created, event.IsWirable) : ∃ outcome after,
      node.syncWithSelf = .ok outcome after ∧ node.Receives created after := by
  obtain ⟨toPeer, toNode, lists, listed, peerListed⟩ :=
    sendLists_total node.replica node.replica node.name node.name
  have among : ∀ event ∈ toNode, event ∈ created :=
    fun event mem => grounded.within (peerListed event mem)
  have peerAmong : ∀ event ∈ toPeer, event ∈ created :=
    fun event mem => grounded.within (listed event mem)
  have synced := syncWithSelf_eq lists (fun event mem => wirable event (peerAmong event mem))
    fun event mem => wirable event (among event mem)
  have received := ((Receives.refl created node).absorb peerAmong).absorb among
  exact ⟨_, _, synced, (received.recordSync ..).recordSync ..⟩

end Grounded

def Unextended (created : List Event) (node : Node) : Prop :=
  ∀ event ∈ created, event.creator = node.creator → selfParent event ≠ node.lastEvent

theorem Unextended.of_chain_eq (unextended : node.Unextended created)
    (same : after.chain = node.chain) : after.Unextended created := by
  obtain ⟨sameCreator, sameLast⟩ := Prod.mk.inj same
  rw [Unextended, sameCreator, sameLast]
  exact unextended

/-- An event by another creator does not extend the chain. -/
theorem Unextended.keep (unextended : node.Unextended created)
    (differ : node.creator ≠ event.creator) : node.Unextended (created ++ [event]) := by
  intro child made theirs
  rcases List.mem_append.mp made with old | new
  · exact unextended child old theirs
  · rw [List.mem_singleton.mp new] at theirs
    exact (differ theirs.symm).elim

/-- The event that a node makes the end of its chain is new, and nothing extends it yet. -/
theorem Unextended.extend (unextended : node.Unextended created)
    (rooted : IsRooted created) (own : Refers created node.lastEvent)
    (injective : Set.InjOn DagEvent.hash {other | other ∈ created ++ [event]})
    (ours : event.creator = node.creator) (extending : selfParent event = node.lastEvent) :
    (node.extend event).Unextended (created ++ [event]) := by
  have fresh : event ∉ created := fun made => unextended event made ours extending
  have earlier (child : Event) (mem : child ∈ created ++ [event]) :
      Refers created (selfParent child) := by
    rcases List.mem_append.mp mem with made | new
    · exact rooted.selfParents child made
    · rw [List.mem_singleton.mp new, extending]
      exact own
  intro child mem _ names
  obtain ⟨parent, made, same⟩ := earlier child mem _ names
  have first : parent = event := injective (List.mem_append_left _ made) List.mem_concat_self
    (congrArg Descriptor.hash same)
  exact fresh (first ▸ made)

end Node

namespace Network

variable {network : Network}

def Grounded (created : List Event) (network : Network) : Prop :=
  ∀ node ∈ network.nodes, node.Grounded created

/-- A sync replaces nodes by what they become when they receive created events. -/
theorem Grounded.sync (grounded : network.Grounded created)
    (wirable : ∀ event ∈ created, event.IsWirable) (place peerPlace : Nat) :
    (left (sync place peerPlace network)).creators = network.creators ∧
      ∀ after ∈ (left (sync place peerPlace network)).nodes,
        ∃ node ∈ network.nodes, node.Receives created after := by
  have all : ∀ node ∈ network.nodes, ∃ member ∈ network.nodes, member.Receives created node :=
    fun node mem => ⟨node, mem, .refl created node⟩
  unfold Network.sync
  split
  · rename_i node peer found peerFound
    have mem := Array.mem_of_getElem? found
    have peerMem := Array.mem_of_getElem? peerFound
    split
    · obtain ⟨outcome, after, synced, received⟩ := (grounded node mem).syncWithSelf wirable
      rw [synced]
      exact ⟨map_setNode found (congrArg Prod.fst received.chain_eq),
        forall_setNode all ⟨node, mem, received⟩⟩
    · rename_i distinct
      obtain ⟨outcome, node', peer', synced, received, peerReceived⟩ :=
        (grounded node mem).syncWith (grounded peer peerMem) wirable
      rw [synced]
      have still : (network.setNode place node').nodes[peerPlace]? = some peer :=
        (getElem?_setNode_ne (Ne.symm distinct)).trans peerFound
      refine ⟨?_, forall_setNode (forall_setNode all ⟨node, mem, received⟩)
        ⟨peer, peerMem, peerReceived⟩⟩
      exact (map_setNode still (congrArg Prod.fst peerReceived.chain_eq)).trans
        (map_setNode found (congrArg Prod.fst received.chain_eq))
  · exact ⟨rfl, all⟩

/-- In every run the created events are rooted and the nodes are grounded in them. -/
theorem Operated.grounded (run : Operated created network) :
    IsRooted created ∧ network.Grounded created := by
  induction run with
  | start fresh => exact ⟨.nil, fun node mem => .fresh (fresh node mem).1 (fresh node mem).2⟩
  | @create created network run otherParent transactions count each place clock ih =>
    obtain ⟨rooted, grounded⟩ := ih
    rcases network.create_cases place clock otherParent count each with
      ⟨node, event, found, creates, succeeded, bornOne, extended⟩ | ⟨bornNone, unchanged⟩
    · obtain ⟨-, extending, -⟩ := Node.descent_of_createEvent succeeded
      rw [bornOne, extended]
      have before := grounded node (Array.mem_of_getElem? found)
      have earlier : created ⊆ created ++ [event] := List.subset_append_left _ _
      have grown := creates.isRooted extending before.refers rooted
      have insertable : node.replica.classify event = .insertable :=
        Node.insertable_of_createWithin succeeded
      refine ⟨grown, forall_setNode (fun other mem => (grounded other mem).mono earlier) ?_⟩
      exact (before.mono earlier).extend grown List.mem_concat_self insertable
    · rw [bornNone, unchanged, List.append_nil]
      exact ⟨rooted, grounded⟩
  | sync _ place peer ih =>
    obtain ⟨rooted, grounded⟩ := ih
    refine ⟨rooted, fun after mem => ?_⟩
    obtain ⟨node, there, received⟩ := (grounded.sync rooted.wirable place peer).2 after mem
    exact (grounded node there).receives rooted received
  | expire _ found retained ih =>
    obtain ⟨rooted, grounded⟩ := ih
    have before := grounded _ (Array.mem_of_getElem? found)
    exact ⟨rooted, forall_setNode grounded (before.expireRetaining rooted retained)⟩

/-- In a run of nodes with distinct creators no created event extends the chain of any node. -/
theorem Operated.unextended (run : Operated created network)
    (injective : Set.InjOn DagEvent.hash {event | event ∈ created})
    (distinct : network.creators.toList.Nodup) :
    ∀ node ∈ network.nodes, node.Unextended created := by
  induction run with
  | start fresh => exact fun _ _ _ made => (List.not_mem_nil made).elim
  | @create created network run otherParent transactions count each place clock ih =>
    obtain ⟨rooted, grounded⟩ := run.grounded
    rcases network.create_cases place clock otherParent count each with
      ⟨node, event, found, -, succeeded, bornOne, extended⟩ | ⟨bornNone, unchanged⟩
    · obtain ⟨ours, extending, -⟩ := Node.descent_of_createEvent succeeded
      rw [bornOne] at injective ⊢
      rw [extended] at distinct ⊢
      have before : Set.InjOn DagEvent.hash {event | event ∈ created} :=
        injective.mono fun _ made => List.mem_append_left _ made
      have same : (network.setNode place (node.extend event)).creators = network.creators :=
        map_setNode found rfl
      rw [same] at distinct
      have all := ih before distinct
      have there := Array.mem_of_getElem? found
      intro other mem
      rcases eq_or_mem_of_mem_setNode found mem rfl distinct with rfl | ⟨earlier, differ⟩
      · exact (all node there).extend rooted (grounded node there).refers injective ours extending
      · exact (all other earlier).keep (ours ▸ differ)
    · rw [unchanged] at distinct ⊢
      rw [bornNone, List.append_nil] at injective ⊢
      exact ih injective distinct
  | sync run place peer ih =>
    obtain ⟨rooted, grounded⟩ := run.grounded
    obtain ⟨same, received⟩ := grounded.sync rooted.wirable place peer
    intro after mem
    obtain ⟨node, there, receives⟩ := received after mem
    exact (ih injective (same ▸ distinct) node there).of_chain_eq receives.chain_eq
  | @expire created network run place node found retained ih =>
    have all := ih injective (creators_eq_of_chains (chains_expire found retained) ▸ distinct)
    have there := Array.mem_of_getElem? found
    exact forall_setNode all
      ((all node there).of_chain_eq (node.chain_expireRetaining retained))

end Network
end Hashgraph
