import Hashgraph.Network.Basic
import Hashgraph.Proofs.Node.Convergence
import Hashgraph.Proofs.Node.Operations

/-! Runs of a network. Its nodes start with nothing and then create events, sync and expire in any
order. As soon as no two of the created events share a hash, and none is named as an other-parent
with a generation that it does not have, they make up a history; every node stays on that history,
with nothing expired left in its replica. Where every other-parent is one of the events so far, the
created events are closed under parents. -/

namespace Hashgraph

open DagEvent Replica

variable {created more : List Event}

def Refers (created : List Event) (reference : Option Descriptor) : Prop :=
  ∀ named ∈ reference, ∃ event ∈ created, descriptor event = named

theorem Refers.mono {reference : Option Descriptor} (refers : Refers created reference)
    (subset : created ⊆ more) : Refers more reference := by
  intro named mem
  obtain ⟨event, made, same⟩ := refers named mem
  exact ⟨event, subset made, same⟩

/-- Events that can be read back and lie above their parents, and whose self-parents are events among
them. -/
structure IsRooted (created : List Event) : Prop where
  wirable : ∀ event ∈ created, event.IsWirable
  rises : ∀ event ∈ created, ∀ line, ∀ named ∈ parent line event,
    named.generation < generation event
  selfParents : ∀ event ∈ created, Refers created (selfParent event)

/-- No event names another of them as its other-parent with a generation that this one does not
have. -/
def IsHonest (created : List Event) : Prop :=
  ∀ child ∈ created, ∀ named ∈ otherParent child, ∀ event ∈ created, hash event = named.hash →
    generation event = named.generation

theorem IsHonest.of_refers (refers : ∀ event ∈ created, Refers created (otherParent event))
    (injective : Set.InjOn DagEvent.hash {event | event ∈ created}) : IsHonest created := by
  intro child made named mem event there same
  obtain ⟨parent, parentMem, rfl⟩ := refers child made named mem
  rw [injective there parentMem same]
  rfl

theorem IsHonest.mono (honest : IsHonest more) (subset : created ⊆ more) : IsHonest created :=
  fun child made named mem event there => honest child (subset made) named mem event (subset there)

theorem IsRooted.nil : IsRooted [] where
  wirable _ mem := (List.not_mem_nil mem).elim
  rises _ mem := (List.not_mem_nil mem).elim
  selfParents _ mem := (List.not_mem_nil mem).elim

theorem IsRooted.isAscending (rooted : IsRooted created)
    (injective : Set.InjOn DagEvent.hash {event | event ∈ created}) :
    IsAscending {event | event ∈ created} := by
  intro child older childMem olderMem names
  obtain ⟨named, self, same⟩ := names_iff.mp names
  have rises := rooted.rises child childMem .self named self
  obtain ⟨event, mem, rfl⟩ := rooted.selfParents child childMem named self
  rw [← injective mem olderMem same]
  exact rises

theorem IsRooted.isHistory (rooted : IsRooted created) (honest : IsHonest created)
    (injective : Set.InjOn DagEvent.hash {event | event ∈ created}) :
    IsHistory {event | event ∈ created} where
  hash_inj first second same := injective first second same
  declared := by
    intro line child older named childMem olderMem names same
    cases line with
    | self =>
      obtain ⟨parent, mem, rfl⟩ := rooted.selfParents child childMem named names
      rw [← injective mem olderMem same]
      rfl
    | other => exact (honest child childMem named names older olderMem same.symm).symm
  rises childMem names := rooted.rises _ childMem _ _ names

/-- Events that can be read back and lie above their parents, which are events among them. -/
structure IsClosed (created : List Event) : Prop where
  wirable : ∀ event ∈ created, event.IsWirable
  rises : ∀ event ∈ created, ∀ line, ∀ named ∈ parent line event,
    named.generation < generation event
  parents : ∀ event ∈ created, ∀ line, Refers created (parent line event)

namespace IsClosed

theorem isRooted (closed : IsClosed created) : IsRooted created where
  wirable := closed.wirable
  rises := closed.rises
  selfParents event mem := closed.parents event mem .self

theorem isHistory (closed : IsClosed created)
    (injective : Set.InjOn DagEvent.hash {event | event ∈ created}) :
    IsHistory {event | event ∈ created} :=
  closed.isRooted.isHistory
    (.of_refers (fun event mem => closed.parents event mem .other) injective) injective

end IsClosed

namespace Replica

variable {events more : Set Event} {replica after : Replica Event}

theorem Step.mono (subset : events ⊆ more) (step : Step events replica after) :
    Step more replica after := by
  cases step with
  | add offered => exact .add (subset offered)
  | expireTo raises => exact .expireTo raises
  | expire => exact .expire
  | setWatermark raises => exact .setWatermark raises

theorem Reached.mono (subset : events ⊆ more) (reached : Reached events replica) :
    Reached more replica := by
  induction reached with
  | empty => exact .empty
  | step _ step ih => exact .step ih (step.mono subset)
  | clear _ ih => exact .clear ih

end Replica

namespace Node

/-- A node that holds none but the created events, and the last of which it made is one of them. -/
structure Sound (created : List Event) (node : Node) : Prop where
  reached : Reached {event | event ∈ created} node.replica
  swept : node.replica.IsSwept
  own : Refers created node.lastEvent

namespace Sound

variable {offered : List Event} {node peer : Node}

theorem mono (sound : node.Sound created) (subset : created ⊆ more) : node.Sound more where
  reached := sound.reached.mono subset
  swept := sound.swept
  own := sound.own.mono subset

theorem fresh (blank : node.replica = ∅) (idle : node.lastEvent = none) : node.Sound created where
  reached := blank ▸ .empty
  swept := blank ▸ .empty
  own named mem := by
    rw [idle] at mem
    contradiction

theorem recordSync (sound : node.Sound created) (sent : Nat) (tally : Tally) :
    (node.recordSync sent tally).Sound created := ⟨sound.reached, sound.swept, sound.own⟩

/-- Between sound nodes an exchange succeeds; each takes its share of what the other is short of. -/
theorem syncWith (ours : node.Sound created) (theirs : peer.Sound created)
    (wirable : ∀ event ∈ created, event.IsWirable)
    (history : IsHistory {event | event ∈ created}) : ∃ toPeer toNode outcome,
      Completes node.replica
        (redundant {event | event ∈ created} node.replica peer.replica) toPeer ∧
      Completes peer.replica
        (redundant {event | event ∈ created} peer.replica node.replica) toNode ∧
      node.syncWith peer = .ok outcome
        ((node.absorb toNode).recordSync toPeer.length (node.tally toNode),
          (peer.absorb toPeer).recordSync toNode.length (peer.tally toPeer)) := by
  have oursCoherent := ours.reached.coherent history
  have theirsCoherent := theirs.reached.coherent history
  obtain ⟨toPeer, toNode, lists, forPeer, forNode⟩ :=
    sendLists_ok history oursCoherent theirsCoherent node.name peer.name
  refine ⟨toPeer, toNode, _, forPeer, forNode, syncWith_eq lists ?_ ?_⟩
  · intro event listed
    exact wirable event (oursCoherent.mem_of_holds (forPeer.listed event listed))
  · intro event listed
    exact wirable event (theirsCoherent.mem_of_holds (forNode.listed event listed))

theorem syncWithSelf (sound : node.Sound created) (history : IsHistory {event | event ∈ created}) :
    ∃ stats, node.syncWithSelf = .ok {} { node with stats } := by
  have tracked := (sound.reached.coherent history).toTracked
  have nothing := sendLists_of_same_tips tracked tracked (fun _ => Iff.rfl) node.name node.name
  obtain ⟨stats, receives⟩ := node.receive_nil
  obtain ⟨later, receivesAgain⟩ := Node.receive_nil { node with stats }
  simp only [Node.syncWithSelf, nothing, List.map_nil, receives, receivesAgain]
  exact ⟨_, rfl⟩

theorem absorb (ours : node.Sound created) (theirs : peer.Sound created)
    (history : IsHistory {event | event ∈ created}) {spared : Set Event}
    (completes : Completes peer.replica spared offered) : (node.absorb offered).Sound created where
  reached := by
    refine Steps.reached (Steps.addEvents fun event taken => ?_) ours.reached
    have listed := List.mem_of_mem_take taken
    exact (theirs.reached.coherent history).mem_of_holds (completes.listed event listed)
  swept := ours.swept.addEvents
  own := ours.own

theorem extend (sound : node.Sound created) {event : Event} (mem : event ∈ created) :
    (node.extend event).Sound created where
  reached := .step sound.reached (.add mem)
  swept := sound.swept.addEvent event
  own _ last := ⟨event, mem, Option.some.inj last⟩

theorem expireRetaining (sound : node.Sound created)
    (history : IsHistory {event | event ∈ created}) (retained : Generation) :
    (node.expireRetaining retained).2.Sound created := by
  rcases node.expireRetaining_cases retained with unchanged | ⟨target, stats, above, expired⟩
  · rw [unchanged]
    exact sound
  · rw [expired]
    refine ⟨.step sound.reached (.expireTo (Int64.le_of_lt above)), ?_, sound.own⟩
    exact (sound.reached.coherent history).isSwept_expireTo history sound.swept target

end Sound

theorem Sound.refers_chooseOtherParent {node : Node} (sound : node.Sound created)
    (history : IsHistory {event | event ∈ created}) (generator : Random.Generator) :
    Refers created (node.chooseOtherParent generator).1 := by
  intro named mem
  obtain ⟨event, held, same⟩ := mem_chooseOtherParent mem
  exact ⟨event, (sound.reached.coherent history).events_subset held, same⟩

/-- With what a node creates the events stay rooted. -/
theorem Creates.isRooted {node : Node} {otherParent : Option Descriptor} {event : Event}
    (creates : node.Creates otherParent event) (extending : selfParent event = node.lastEvent)
    (own : Refers created node.lastEvent) (rooted : IsRooted created) :
    IsRooted (created ++ [event]) := by
  have earlier : created ⊆ created ++ [event] := List.subset_append_left _ _
  refine ⟨?_, ?_, ?_⟩ <;> simp only [List.forall_mem_append, List.forall_mem_singleton]
  · exact ⟨rooted.wirable, creates.wirable⟩
  · exact ⟨rooted.rises, fun line named mem => (creates.parents line named mem).1⟩
  · refine ⟨fun child mem => (rooted.selfParents child mem).mono earlier, ?_⟩
    exact extending ▸ own.mono earlier

end Node

namespace Network

/-- The network that an operation leaves, whether it fails or not. -/
def left {α : Type} : EStateM.Result NodeError Network α → Network
  | .ok _ network => network
  | .error _ network => network

def born : EStateM.Result NodeError Network (Option Event) → List Event
  | .ok event _ => event.toList
  | .error _ _ => []

theorem mem_born_create {place : Nat} {clock : Nat → Timestamp} {otherParent : Option Descriptor}
    {transactions : List Bytes} {network : Network} {event : Event}
    (mem : event ∈ born (create place clock otherParent transactions network)) :
    ∃ node after, network.nodes[place]? = some node ∧
      node.createEvent clock otherParent transactions = .ok event after := by
  unfold create at mem
  split at mem
  · exact (List.not_mem_nil mem).elim
  · rename_i node found
    split at mem
    · rename_i made after succeeded
      cases List.mem_singleton.mp mem
      exact ⟨node, after, found, succeeded⟩
    · exact (List.not_mem_nil mem).elim

/-- The events created so far, and the network, in a run from nothing. What is asked for as the
other-parent of an event may be anything; transactions have lengths that 64 bits can tell. -/
inductive Operated : List Event → Network → Prop
  | start {network : Network}
    (fresh : ∀ node ∈ network.nodes, node.replica = ∅ ∧ node.lastEvent = none) :
    Operated [] network
  | create {created : List Event} {network : Network} (run : Operated created network)
    (otherParent : Option Descriptor) {transactions : List Bytes}
    (count : transactions.length < UInt64.size)
    (each : ∀ transaction ∈ transactions, transaction.length < UInt64.size)
    (place : Nat) (clock : Nat → Timestamp) :
    Operated (created ++ born (create place clock otherParent transactions network))
      (left (create place clock otherParent transactions network))
  | sync {created : List Event} {network : Network} (run : Operated created network)
    (place peer : Nat) : Operated created (left (sync place peer network))
  | expire {created : List Event} {network : Network} (run : Operated created network)
    {place : Nat} {node : Node} (found : network.nodes[place]? = some node)
    (retained : Generation) :
    Operated created (network.setNode place (node.expireRetaining retained).2)

/-- The events created so far, and the network, in a run from nothing. The other-parent of an event
is any of the events so far; transactions have lengths that 64 bits can tell. -/
inductive Gossiped : List Event → Network → Prop
  | start {network : Network}
    (fresh : ∀ node ∈ network.nodes, node.replica = ∅ ∧ node.lastEvent = none) :
    Gossiped [] network
  | create {created : List Event} {network : Network} (run : Gossiped created network)
    {otherParent : Option Descriptor} (refers : Refers created otherParent)
    {transactions : List Bytes} (count : transactions.length < UInt64.size)
    (each : ∀ transaction ∈ transactions, transaction.length < UInt64.size)
    (place : Nat) (clock : Nat → Timestamp) :
    Gossiped (created ++ born (create place clock otherParent transactions network))
      (left (create place clock otherParent transactions network))
  | sync {created : List Event} {network : Network} (run : Gossiped created network)
    {place peer : Nat} (distinct : place ≠ peer) :
    Gossiped created (left (sync place peer network))
  | expire {created : List Event} {network : Network} (run : Gossiped created network)
    {place : Nat} {node : Node} (found : network.nodes[place]? = some node)
    (retained : Generation) :
    Gossiped created (network.setNode place (node.expireRetaining retained).2)

variable {network : Network}

theorem forall_setNode {motive : Node → Prop} (all : ∀ node ∈ network.nodes, motive node)
    {place : Nat} {node : Node} (new : motive node) :
    ∀ other ∈ (network.setNode place node).nodes, motive other := by
  intro other mem
  rcases Array.mem_or_eq_of_mem_setIfInBounds mem with earlier | rfl
  · exact all other earlier
  · exact new

theorem getElem?_setNode {place : Nat} {node member : Node}
    (found : network.nodes[place]? = some node) :
    (network.setNode place member).nodes[place]? = some member :=
  Array.getElem?_setIfInBounds_self_of_lt (Array.getElem?_eq_some_iff.mp found).1

theorem getElem?_setNode_ne {place other : Nat} {member : Node} (differ : other ≠ place) :
    (network.setNode place member).nodes[other]? = network.nodes[other]? :=
  Array.getElem?_setIfInBounds_ne differ.symm

theorem getElem?_create_ne {place other : Nat} {clock : Nat → Timestamp}
    {otherParent : Option Descriptor} {transactions : List Bytes} (differ : other ≠ place) :
    (left (create place clock otherParent transactions network)).nodes[other]? =
      network.nodes[other]? := by
  unfold create
  split
  · rfl
  · split <;> exact getElem?_setNode_ne differ

theorem getElem?_sync_ne {place peer other : Nat} (first : other ≠ place) (second : other ≠ peer) :
    (left (sync place peer network)).nodes[other]? = network.nodes[other]? := by
  unfold sync
  split
  · split
    · split <;> exact getElem?_setNode_ne first
    · split <;> exact (getElem?_setNode_ne second).trans (getElem?_setNode_ne first)
  · rfl

theorem setNode_self {place : Nat} {node : Node} (found : network.nodes[place]? = some node) :
    network.setNode place node = network := by
  obtain ⟨inside, rfl⟩ := Array.getElem?_eq_some_iff.mp found
  rw [setNode, Array.setIfInBounds_def, dif_pos inside, Array.set_getElem_self]

/-- Creation extends one node by an event, or it leaves all as it was. -/
theorem create_cases (network : Network) (place : Nat) (clock : Nat → Timestamp)
    (otherParent : Option Descriptor) {transactions : List Bytes}
    (count : transactions.length < UInt64.size)
    (each : ∀ transaction ∈ transactions, transaction.length < UInt64.size) :
    (∃ node event, network.nodes[place]? = some node ∧ node.Creates otherParent event ∧
      node.createEvent clock otherParent transactions = .ok event (node.extend event) ∧
      born (create place clock otherParent transactions network) = [event] ∧
      left (create place clock otherParent transactions network) =
        network.setNode place (node.extend event)) ∨
    born (create place clock otherParent transactions network) = [] ∧
      left (create place clock otherParent transactions network) = network := by
  cases found : network.nodes[place]? with
  | none =>
    simp only [create, found]
    exact .inr ⟨rfl, rfl⟩
  | some node =>
    rcases node.createEvent_cases clock otherParent count each with
      ⟨event, creates, succeeded⟩ | ⟨error, failed⟩
    · simp only [create, found, succeeded]
      exact .inl ⟨node, event, rfl, creates, succeeded, rfl, rfl⟩
    · simp only [create, found, failed]
      exact .inr ⟨rfl, setNode_self found⟩

def Sound (created : List Event) (network : Network) : Prop :=
  ∀ node ∈ network.nodes, node.Sound created

theorem sync_of_syncWith {place peerPlace : Nat} {node peer node' peer' : Node}
    {outcome : SyncOutcome} (found : network.nodes[place]? = some node)
    (peerFound : network.nodes[peerPlace]? = some peer) (distinct : place ≠ peerPlace)
    (synced : node.syncWith peer = .ok outcome (node', peer')) : sync place peerPlace network =
      .ok outcome ((network.setNode place node').setNode peerPlace peer') := by
  simp only [sync, found, peerFound, if_neg distinct, synced]

theorem Sound.sync (sound : network.Sound created) (wirable : ∀ event ∈ created, event.IsWirable)
    (history : IsHistory {event | event ∈ created}) (place peer : Nat) :
    (left (sync place peer network)).Sound created := by
  unfold Network.sync
  split
  · rename_i node other found otherFound
    have ours := sound node (Array.mem_of_getElem? found)
    split
    · obtain ⟨stats, synced⟩ := ours.syncWithSelf history
      rw [synced]
      exact forall_setNode sound ⟨ours.reached, ours.swept, ours.own⟩
    · have theirs := sound other (Array.mem_of_getElem? otherFound)
      obtain ⟨toPeer, toNode, outcome, forPeer, forNode, synced⟩ :=
        ours.syncWith theirs wirable history
      rw [synced]
      exact forall_setNode
        (forall_setNode sound ((ours.absorb theirs history forNode).recordSync ..))
        ((theirs.absorb ours history forPeer).recordSync ..)
  · exact sound

/-- In a run in which no two events share a hash and other-parents are named as they are, the created
events are rooted and the nodes are sound. -/
theorem Operated.sound (run : Operated created network)
    (injective : Set.InjOn DagEvent.hash {event | event ∈ created}) (honest : IsHonest created) :
    IsRooted created ∧ network.Sound created := by
  induction run with
  | start fresh =>
    exact ⟨.nil, fun node mem => .fresh (fresh node mem).1 (fresh node mem).2⟩
  | @create created network run otherParent transactions count each place clock ih =>
    have earlier : created ⊆
        created ++ born (Network.create place clock otherParent transactions network) :=
      List.subset_append_left _ _
    have before : Set.InjOn DagEvent.hash {event | event ∈ created} :=
      fun first firstMem second secondMem => injective (earlier firstMem) (earlier secondMem)
    obtain ⟨rooted, sound⟩ := ih before (honest.mono earlier)
    rcases network.create_cases place clock otherParent count each with
      ⟨node, event, found, creates, succeeded, bornOne, extended⟩ | ⟨bornNone, unchanged⟩
    · obtain ⟨-, extending, -⟩ := Node.descent_of_createEvent succeeded
      rw [bornOne] at earlier ⊢
      rw [extended]
      have nodeSound := sound node (Array.mem_of_getElem? found)
      have now : Network.Sound (created ++ [event]) network :=
        fun other mem => (sound other mem).mono earlier
      refine ⟨creates.isRooted extending nodeSound.own rooted, ?_⟩
      exact forall_setNode now ((nodeSound.mono earlier).extend List.mem_concat_self)
    · rw [bornNone, unchanged, List.append_nil]
      exact ⟨rooted, sound⟩
  | sync _ place peer ih =>
    obtain ⟨rooted, sound⟩ := ih injective honest
    exact ⟨rooted, sound.sync rooted.wirable (rooted.isHistory honest injective) place peer⟩
  | @expire created network run place node found retained ih =>
    obtain ⟨rooted, sound⟩ := ih injective honest
    have nodeSound := sound node (Array.mem_of_getElem? found)
    have history := rooted.isHistory honest injective
    exact ⟨rooted, forall_setNode sound (nodeSound.expireRetaining history retained)⟩

namespace Gossiped

theorem operated (run : Gossiped created network) : Operated created network := by
  induction run with
  | start fresh => exact .start fresh
  | create _ _ count each place clock ih => exact ih.create _ count each place clock
  | sync _ _ ih => exact ih.sync ..
  | expire _ found retained ih => exact ih.expire found retained

/-- Every other-parent is one of the created events. -/
theorem refers_otherParent (run : Gossiped created network) :
    ∀ event ∈ created, Refers created (otherParent event) := by
  induction run with
  | start _ => exact fun _ mem => (List.not_mem_nil mem).elim
  | @create created network run otherParent refers transactions count each place clock ih =>
    have earlier : created ⊆
        created ++ born (Network.create place clock otherParent transactions network) :=
      List.subset_append_left _ _
    intro event mem
    rcases List.mem_append.mp mem with made | new
    · exact (ih event made).mono earlier
    · obtain ⟨node, after, -, succeeded⟩ := mem_born_create new
      obtain ⟨-, -, asked⟩ := Node.descent_of_createEvent succeeded
      exact asked ▸ refers.mono earlier
  | sync _ _ ih | expire _ _ _ ih => exact ih

/-- In a run in which no two events share a hash, the created events are closed and the nodes are
sound. -/
theorem sound (run : Gossiped created network)
    (injective : Set.InjOn DagEvent.hash {event | event ∈ created}) :
    IsClosed created ∧ network.Sound created := by
  have refers := run.refers_otherParent
  obtain ⟨rooted, sound⟩ := run.operated.sound injective (.of_refers refers injective)
  refine ⟨⟨rooted.wirable, rooted.rises, ?_⟩, sound⟩
  intro event mem line
  cases line with
  | self => exact rooted.selfParents event mem
  | other => exact refers event mem

end Gossiped
end Network
end Hashgraph
