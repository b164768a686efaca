import Hashgraph.Proofs.Network.Settlement
import Hashgraph.Proofs.Replica.Consistency

/-! Lines of descent in a run of a network. A node makes each of its events the self-child of the one
before, and it alone creates under its name. So the events of all nodes together never fork, and a
self-parent has the creator of its child, although every node sees only a part of them. -/

namespace Hashgraph

open DagEvent Replica

variable {created : List Event}

namespace Node

variable {node after : Node} {event : Event}

/-- The last event of a node is the end of its creator's chain: nothing extends it, and a node
without one has a creator that no event has. -/
structure Leads (created : List Event) (node : Node) : Prop where
  last : ∀ named ∈ node.lastEvent, ∃ event ∈ created, descriptor event = named ∧
    event.creator = node.creator ∧ ∀ child ∈ created, ¬ Names .self child named.hash
  idle : node.lastEvent = none → ∀ event ∈ created, event.creator ≠ node.creator

def chain (node : Node) : CreatorId × Option Descriptor := (node.creator, node.lastEvent)

theorem chain_expireRetaining (node : Node) (retained : Generation) :
    (node.expireRetaining retained).2.chain = node.chain := by
  rcases node.expireRetaining_cases retained with unchanged | ⟨target, stats, -, expired⟩
  · rw [unchanged]
  · rw [expired]
    rfl

namespace Leads

theorem of_chain_eq (leads : node.Leads created) (same : after.chain = node.chain) :
    after.Leads created := by
  obtain ⟨sameCreator, sameLast⟩ := Prod.mk.inj same
  constructor
  · rw [sameCreator, sameLast]
    exact leads.last
  · rw [sameCreator, sameLast]
    exact leads.idle

theorem not_mem (leads : node.Leads created) (ours : event.creator = node.creator)
    (extending : selfParent event = node.lastEvent) : event ∉ created := by
  intro made
  cases last : node.lastEvent with
  | none => exact leads.idle last event made ours
  | some named =>
    obtain ⟨-, -, -, -, unextended⟩ := leads.last named last
    exact unextended event made (names_iff.mpr ⟨named, extending.trans last, rfl⟩)

variable {other : Node}

/-- Nodes of different creators have different last events. -/
theorem last_ne (leads : node.Leads created) (theirs : other.Leads created)
    (injective : Set.InjOn DagEvent.hash {event | event ∈ created})
    (differ : other.creator ≠ node.creator) {named theirNamed : Descriptor}
    (last : named ∈ node.lastEvent) (theirLast : theirNamed ∈ other.lastEvent) :
    named.hash ≠ theirNamed.hash := by
  obtain ⟨first, firstMem, rfl, firstCreator, -⟩ := leads.last named last
  obtain ⟨second, secondMem, rfl, secondCreator, -⟩ := theirs.last theirNamed theirLast
  intro same
  rw [injective firstMem secondMem same] at firstCreator
  exact differ (secondCreator.symm.trans firstCreator)

theorem keep (theirs : other.Leads created) (leads : node.Leads created)
    (injective : Set.InjOn DagEvent.hash {event | event ∈ created})
    (differ : other.creator ≠ node.creator) (ours : event.creator = node.creator)
    (extending : selfParent event = node.lastEvent) : other.Leads (created ++ [event]) where
  last named mem := by
    obtain ⟨made, madeMem, described, theirCreator, unextended⟩ := theirs.last named mem
    refine ⟨made, List.mem_append_left _ madeMem, described, theirCreator, ?_⟩
    simp only [List.forall_mem_append, List.forall_mem_singleton]
    refine ⟨unextended, fun names => ?_⟩
    obtain ⟨extended, self, same⟩ := names_iff.mp names
    exact leads.last_ne theirs injective differ (extending.symm.trans self) mem same
  idle blank := by
    simp only [List.forall_mem_append, List.forall_mem_singleton]
    exact ⟨theirs.idle blank, fun same => differ (same.symm.trans ours)⟩

theorem extend (leads : node.Leads created) (rooted : IsRooted created)
    (history : IsHistory {event' | event' ∈ created ++ [event]})
    (ours : event.creator = node.creator) (extending : selfParent event = node.lastEvent) :
    (node.extend event).Leads (created ++ [event]) where
  last named mem := by
    cases Option.some.inj mem
    refine ⟨event, List.mem_concat_self, rfl, ours, ?_⟩
    simp only [List.forall_mem_append, List.forall_mem_singleton]
    constructor
    · intro child made names
      obtain ⟨extended, self, same⟩ := names_iff.mp names
      obtain ⟨parent, parentMem, rfl⟩ := rooted.selfParents child made extended self
      have first : parent = event :=
        history.hash_inj (List.mem_append_left _ parentMem) List.mem_concat_self same
      exact leads.not_mem ours extending (first ▸ parentMem)
    · intro names
      have here : event ∈ {event' | event' ∈ created ++ [event]} := List.mem_concat_self
      exact Int64.lt_irrefl (history.lt_of_names here here names)
  idle blank := by contradiction

end Leads

end Node

/-- No event is extended twice, and every self-parent has the creator of its child. -/
structure IsLineage (created : List Event) : Prop where
  unforked : IsUnforked {event | event ∈ created}
  inherits : ∀ child ∈ created, ∀ named ∈ selfParent child, ∃ event ∈ created,
    descriptor event = named ∧ event.creator = child.creator

/-- An event that extends the chain of a node carries on the lineage. -/
theorem IsLineage.concat (lineage : IsLineage created) {node : Node} {event : Event}
    (leads : node.Leads created) (ours : event.creator = node.creator)
    (extending : selfParent event = node.lastEvent) : IsLineage (created ++ [event]) where
  unforked := by
    have unextended {child : Event} (made : child ∈ created) {hash : EventHash}
        (names : Names .self event hash) : ¬ Names .self child hash := by
      obtain ⟨named, self, rfl⟩ := names_iff.mp names
      obtain ⟨-, -, -, -, ending⟩ := leads.last named (extending.symm.trans self)
      exact ending child made
    intro first second hash firstMem secondMem firstNames secondNames
    rcases List.mem_append.mp firstMem with firstMade | firstNew <;>
      rcases List.mem_append.mp secondMem with secondMade | secondNew
    · exact lineage.unforked firstMade secondMade firstNames secondNames
    · cases List.mem_singleton.mp secondNew
      exact (unextended firstMade secondNames firstNames).elim
    · cases List.mem_singleton.mp firstNew
      exact (unextended secondMade firstNames secondNames).elim
    · exact (List.mem_singleton.mp firstNew).trans (List.mem_singleton.mp secondNew).symm
  inherits := by
    simp only [List.forall_mem_append, List.forall_mem_singleton]
    constructor
    · intro child made named mem
      obtain ⟨parent, parentMem, same⟩ := lineage.inherits child made named mem
      exact ⟨parent, List.mem_append_left _ parentMem, same⟩
    · intro named mem
      obtain ⟨parent, parentMem, same, theirs, -⟩ := leads.last named (extending.symm.trans mem)
      exact ⟨parent, List.mem_append_left _ parentMem, same, theirs.trans ours.symm⟩

namespace Network

variable {network : Network}

def creators (network : Network) : Array CreatorId := network.nodes.map Node.creator

/-- What a node keeps of itself when it is replaced, the network keeps of all nodes. -/
theorem map_setNode {β : Type} {key : Node → β} {place : Nat} {node after : Node}
    (found : network.nodes[place]? = some node) (same : key after = key node) :
    (network.setNode place after).nodes.map key = network.nodes.map key := by
  obtain ⟨inside, rfl⟩ := Array.getElem?_eq_some_iff.mp found
  apply Array.ext_getElem?
  intro other
  simp only [setNode, Array.getElem?_map, Array.getElem?_setIfInBounds]
  split
  · rename_i here
    cases here
    rw [Array.getElem?_eq_getElem inside, Option.map_some, Option.map_some, same]
  · rfl

theorem creators_eq_of_chains {after : Network}
    (same : after.nodes.map Node.chain = network.nodes.map Node.chain) :
    after.creators = network.creators := by
  have projected := congrArg (Array.map Prod.fst) same
  rwa [Array.map_map, Array.map_map] at projected

def Led (created : List Event) (network : Network) : Prop :=
  ∀ node ∈ network.nodes, node.Leads created

theorem Led.of_chains_eq {after : Network} (led : network.Led created)
    (same : after.nodes.map Node.chain = network.nodes.map Node.chain) : after.Led created := by
  intro node mem
  have listed : node.chain ∈ network.nodes.map Node.chain := same ▸ Array.mem_map_of_mem mem
  obtain ⟨earlier, there, chain⟩ := Array.mem_map.mp listed
  exact (led earlier there).of_chain_eq chain.symm

theorem Sound.chains_sync (sound : network.Sound created)
    (wirable : ∀ event ∈ created, event.IsWirable) (history : IsHistory {event | event ∈ created})
    (place peer : Nat) : (left (Network.sync place peer network)).nodes.map Node.chain =
      network.nodes.map Node.chain := by
  unfold Network.sync
  split
  · rename_i node other found otherFound
    split
    · obtain ⟨stats, synced⟩ := (sound node (Array.mem_of_getElem? found)).syncWithSelf history
      rw [synced]
      exact map_setNode found rfl
    · rename_i distinct
      obtain ⟨toPeer, toNode, outcome, -, -, synced⟩ :=
        (sound node (Array.mem_of_getElem? found)).syncWith
          (sound other (Array.mem_of_getElem? otherFound)) wirable history
      rw [synced]
      have still : (network.setNode place ((node.absorb toNode).recordSync toPeer.length
          (node.tally toNode))).nodes[peer]? = some other :=
        (getElem?_setNode_ne (Ne.symm distinct)).trans otherFound
      have kept (member : Node) (offered : List Event) (sent : Nat) (tally : Tally) :
          ((member.absorb offered).recordSync sent tally).chain = member.chain := rfl
      exact (map_setNode still (kept ..)).trans (map_setNode found (kept ..))
  · rfl

theorem chains_expire {place : Nat} {node : Node} (found : network.nodes[place]? = some node)
    (retained : Generation) :
    (network.setNode place (node.expireRetaining retained).2).nodes.map Node.chain =
      network.nodes.map Node.chain :=
  map_setNode found (node.chain_expireRetaining retained)

/-- Where creators are distinct, what takes the place of a node is the only one of its creator. -/
theorem eq_or_mem_of_mem_setNode {place : Nat} {node after other : Node}
    (found : network.nodes[place]? = some node)
    (mem : other ∈ (network.setNode place after).nodes) (same : after.creator = node.creator)
    (distinct : network.creators.toList.Nodup) :
    other = after ∨ other ∈ network.nodes ∧ other.creator ≠ node.creator := by
  have kept : (network.setNode place after).creators = network.creators := map_setNode found same
  have here : after ∈ (network.setNode place after).nodes :=
    Array.mem_setIfInBounds (Array.getElem?_eq_some_iff.mp found).1
  rw [← kept, creators, Array.toList_map] at distinct
  by_cases mine : other.creator = node.creator
  · exact .inl (List.inj_on_of_nodup_map distinct (Array.mem_toList_iff.mpr mem)
      (Array.mem_toList_iff.mpr here) (mine.trans same.symm))
  · rcases Array.mem_or_eq_of_mem_setIfInBounds mem with there | rfl
    · exact .inr ⟨there, mine⟩
    · exact (mine same).elim

theorem Led.extend (led : network.Led created) {place : Nat} {node : Node} {event : Event}
    (found : network.nodes[place]? = some node) (rooted : IsRooted created)
    (history : IsHistory {event' | event' ∈ created ++ [event]})
    (ours : event.creator = node.creator) (extending : selfParent event = node.lastEvent)
    (distinct : network.creators.toList.Nodup) :
    (network.setNode place (node.extend event)).Led (created ++ [event]) := by
  have leads := led node (Array.mem_of_getElem? found)
  have before : Set.InjOn DagEvent.hash {event | event ∈ created} := fun _ made _ also =>
    history.hash_inj (List.mem_append_left _ made) (List.mem_append_left _ also)
  intro other mem
  rcases eq_or_mem_of_mem_setNode found mem rfl distinct with rfl | ⟨there, differ⟩
  · exact leads.extend rooted history ours extending
  · exact (led other there).keep leads before differ ours extending

/-- In a run of nodes with distinct creators the created events are a lineage, whose chains the nodes
lead. -/
theorem Operated.lineage (run : Operated created network)
    (injective : Set.InjOn DagEvent.hash {event | event ∈ created}) (honest : IsHonest created)
    (distinct : network.creators.toList.Nodup) : IsLineage created ∧ network.Led created := by
  induction run with
  | @start network fresh =>
    refine ⟨⟨fun mem => (List.not_mem_nil mem).elim, fun _ mem => (List.not_mem_nil mem).elim⟩, ?_⟩
    intro node mem
    refine ⟨fun named last => ?_, fun _ _ made => (List.not_mem_nil made).elim⟩
    rw [(fresh node mem).2] at last
    contradiction
  | @create created network run otherParent transactions count each place clock ih =>
    have earlier : created ⊆
        created ++ born (Network.create place clock otherParent transactions network) :=
      List.subset_append_left _ _
    have before : Set.InjOn DagEvent.hash {event | event ∈ created} :=
      injective.mono fun _ made => earlier made
    have truthful : IsHonest created := honest.mono earlier
    have rooted := (run.sound before truthful).1
    have grown := ((run.create otherParent count each place clock).sound injective honest).1
    rcases network.create_cases place clock otherParent count each with
      ⟨node, event, found, -, succeeded, bornOne, extended⟩ | ⟨bornNone, unchanged⟩
    · obtain ⟨ours, extending, -⟩ := Node.descent_of_createEvent succeeded
      rw [extended] at distinct ⊢
      rw [bornOne] at injective honest grown ⊢
      have same : (network.setNode place (node.extend event)).creators = network.creators :=
        map_setNode found rfl
      rw [same] at distinct
      obtain ⟨lineage, led⟩ := ih before truthful distinct
      exact ⟨lineage.concat (led node (Array.mem_of_getElem? found)) ours extending,
        led.extend found rooted (grown.isHistory honest injective) ours extending distinct⟩
    · rw [unchanged] at distinct ⊢
      rw [bornNone, List.append_nil]
      exact ih before truthful distinct
  | @sync created network run place peer ih =>
    obtain ⟨rooted, sound⟩ := run.sound injective honest
    have same := sound.chains_sync rooted.wirable (rooted.isHistory honest injective) place peer
    rw [creators_eq_of_chains same] at distinct
    obtain ⟨lineage, led⟩ := ih injective honest distinct
    exact ⟨lineage, led.of_chains_eq same⟩
  | @expire created network run place node found retained ih =>
    have same := chains_expire found retained
    rw [creators_eq_of_chains same] at distinct
    obtain ⟨lineage, led⟩ := ih injective honest distinct
    exact ⟨lineage, led.of_chains_eq same⟩

theorem Gossiped.lineage (run : Gossiped created network)
    (injective : Set.InjOn DagEvent.hash {event | event ∈ created})
    (distinct : network.creators.toList.Nodup) : IsLineage created ∧ network.Led created :=
  run.operated.lineage injective (.of_refers run.refers_otherParent injective) distinct

/-- However nodes with distinct creators have gossiped, the events on all of them together are
unforked, each names true descriptors of older events as parents, the self-parent one of its own
creator, and each node is consistent and swept. -/
theorem unforked_of_gossiped (run : Gossiped created network)
    (injective : Set.InjOn DagEvent.hash {event | event ∈ created})
    (distinct : network.creators.toList.Nodup) :
    IsUnforked (⋃ node ∈ network.nodes, node.replica.events) ∧
    (∀ node ∈ network.nodes, ∀ child ∈ node.replica.events, ∀ line, ∀ named ∈ parent line child,
      named.generation < generation child ∧
      ∃ event ∈ created, descriptor event = named ∧
        (line = .self → event.creator = child.creator)) ∧
    ∀ node ∈ network.nodes, node.replica.events ⊆ {event | event ∈ created} ∧
      node.replica.checkConsistency = .ok () ∧ node.replica.IsSwept := by
  obtain ⟨closed, sound⟩ := run.sound injective
  obtain ⟨lineage, -⟩ := run.lineage injective distinct
  have coherent {node : Node} (mem : node ∈ network.nodes) :=
    (sound node mem).reached.coherent (closed.isHistory injective)
  have all : (⋃ node ∈ network.nodes, node.replica.events) ⊆ {event | event ∈ created} :=
    Set.iUnion₂_subset fun node mem => (coherent mem).events_subset
  refine ⟨IsUnforked.mono lineage.unforked all, ?_, ?_⟩
  · intro node mem child held line named names
    have made : child ∈ created := (coherent mem).events_subset held
    refine ⟨closed.rises child made line named names, ?_⟩
    cases line with
    | self =>
      obtain ⟨event, eventMem, same, inherited⟩ := lineage.inherits child made named names
      exact ⟨event, eventMem, same, fun _ => inherited⟩
    | other =>
      obtain ⟨event, eventMem, same⟩ := closed.parents child made .other named names
      exact ⟨event, eventMem, same, fun onSelf => by contradiction⟩
  · intro node mem
    exact ⟨(coherent mem).events_subset, checkConsistency_eq_ok.mpr (coherent mem).isConsistent,
      (sound node mem).swept⟩

/-- The first node has created two events and expired the older when the second syncs with it. -/
theorem unforked_of_stirred :
    let stirred := left (stir (left (stir quiet)))
    ∃ node, stirred.nodes[0]? = some node ∧
      let gossiped := left (sync 1 0 (stirred.setNode 0 (node.expireRetaining 1).2))
      IsUnforked (⋃ node ∈ gossiped.nodes, node.replica.events) ∧
      ∀ node ∈ gossiped.nodes, node.replica.checkConsistency = .ok () ∧ node.replica.IsSwept := by
  intro stirred
  have computed : stirred.nodes[0]?.isSome ∧ stirred.creators.toList.Nodup := by
    decide +kernel
  obtain ⟨there, distinct⟩ := computed
  obtain ⟨node, found⟩ := Option.isSome_iff_exists.mp there
  have run := gossiped_stirred.expire found 1
  obtain ⟨closed, sound⟩ := run.sound injOn_stirred
  have apart : 1 ≠ 0 := by decide
  have same := sound.chains_sync closed.wirable (closed.isHistory injOn_stirred) 1 0
  rw [← creators_eq_of_chains (chains_expire found 1), ← creators_eq_of_chains same] at distinct
  obtain ⟨unforked, -, each⟩ := unforked_of_gossiped (run.sync apart) injOn_stirred distinct
  exact ⟨node, found, unforked, fun node mem => (each node mem).2⟩

end Network
end Hashgraph
