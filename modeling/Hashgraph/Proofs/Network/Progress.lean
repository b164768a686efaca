import Mathlib.Algebra.Order.Floor.Div
import Hashgraph.Proofs.Network.Lineage
import Hashgraph.Proofs.Node.Batch

/-! Progress in batches. Two nodes at one watermark that sync again and again take, each time, as
many of the events that they lack as their batch limits allow. What either lacks shrinks by exactly
that, so the number of syncs after which they hold the same events can be told beforehand. -/

namespace Hashgraph

open DagEvent Replica

variable {created : List Event}

namespace Node.TakesBatch

variable {node peer after peerAfter : Node}

theorem union_eq (ours : node.TakesBatch peer after) (theirs : peer.TakesBatch node peerAfter) :
    after.replica.events ∪ peerAfter.replica.events =
      node.replica.events ∪ peer.replica.events := by
  apply Set.Subset.antisymm
  · exact Set.union_subset ours.takes (Set.union_comm .. ▸ theirs.takes)
  · exact Set.union_subset_union ours.keeps theirs.keeps

/-- What a node lacks of its peer's events shrinks by its batch limit. -/
theorem ncard_lacked (ours : node.TakesBatch peer after) (theirs : peer.TakesBatch node peerAfter)
    (finite : peer.replica.events.Finite) :
    (peerAfter.replica.events \ after.replica.events).ncard =
      (peer.replica.events \ node.replica.events).ncard - node.batchLimit := by
  have rest : peerAfter.replica.events \ after.replica.events =
      (peer.replica.events \ node.replica.events) \
        (after.replica.events \ node.replica.events) := by
    ext event
    constructor
    · rintro ⟨held, absent⟩
      have lacked : event ∉ node.replica.events := fun mem => absent (ours.keeps mem)
      exact ⟨⟨(theirs.takes held).resolve_right lacked, lacked⟩, fun new => absent new.1⟩
    · rintro ⟨⟨held, lacked⟩, old⟩
      exact ⟨theirs.keeps held, fun new => old ⟨new, lacked⟩⟩
  have fewer := (finite.subset Set.sdiff_subset).subset ours.taken_subset
  rw [rest, Set.ncard_sdiff ours.taken_subset fewer, ours.ncard_eq]
  omega

end Node.TakesBatch

theorem Node.Sound.finite_events {node : Node} (sound : node.Sound created)
    (history : IsHistory {event | event ∈ created}) : node.replica.events.Finite :=
  (List.finite_toSet created).subset (sound.reached.coherent history).events_subset

theorem Node.Sound.ncard_lacked_le {node : Node} (sound : node.Sound created)
    (history : IsHistory {event | event ∈ created}) (held : Set Event) :
    (node.replica.events \ held).ncard ≤ created.length :=
  ncard_le_length (Set.sdiff_subset.trans (sound.reached.coherent history).events_subset)

theorem Node.Sound.holds_lastEvent {node : Node} {last : Descriptor} (sound : node.Sound created)
    (history : IsHistory {event | event ∈ created}) (own : node.lastEvent = some last)
    (held : last.hash ∈ node.replica.graph) :
    ∃ newest, last = descriptor newest ∧ node.replica.Holds newest := by
  obtain ⟨newest, made, rfl⟩ := sound.own last own
  exact ⟨newest, rfl, (sound.reached.coherent history).holds_of_mem history made held⟩

theorem Node.Sound.classify_draft {node : Node} {timestamp : Timestamp} {named : Descriptor}
    {transactions : List Bytes} {event : Event} (sound : node.Sound created)
    (history : IsHistory {event | event ∈ created}) (rootless : node.lastEvent = none)
    (built : (node.draft (some named) transactions).build timestamp = .ok event)
    (fresh : DagEvent.hash event ∉ created.map DagEvent.hash)
    (above : ¬ generation event ≤ node.replica.watermark)
    (held : named.hash ∈ node.replica.graph) :
    node.replica.classify event = .insertable := by
  obtain ⟨-, extending, asked⟩ := Node.descent_of_build built
  refine classify_eq_insertable.mpr ⟨?_, above, ?_⟩
  · intro present
    obtain ⟨older, found⟩ := ShadowGraph.mem_iff_event?.mp present
    have coherent := sound.reached.coherent history
    exact fresh (List.mem_map.mpr ⟨older, coherent.mem_events found, coherent.linked.hash_eq found⟩)
  · intro line descriptor names
    cases line with
    | self => cases (extending.trans rootless).symm.trans names
    | other =>
      cases asked.symm.trans names
      exact .inl held

theorem Node.Sound.not_takesBatch_extend {node peer node' peer' : Node} {timestamp : Timestamp}
    {named : Descriptor} {transactions : List Bytes} {event older : Event} {outcome : SyncOutcome}
    (sound : node.Sound created) (history : IsHistory {event | event ∈ created})
    (wirable : ∀ event ∈ created, event.IsWirable) (rootless : node.lastEvent = none)
    (built : (node.draft (some named) transactions).build timestamp = .ok event)
    (insertable : node.replica.classify event = .insertable) (wire : event.IsWirable)
    (held : node.replica.Holds older) (same : hash older = named.hash)
    (below : generation event < generation older)
    (pending : ¬ named.generation ≤ peer.replica.watermark) (empty : peer.replica = ∅)
    (room : created.length + 1 ≤ peer.batchLimit)
    (synced : (node.extend event).syncWith peer = .ok outcome (node', peer')) :
    ¬ peer.TakesBatch (node.extend event) peer' := by
  obtain ⟨-, extending, asked⟩ := Node.descent_of_build built
  have coherent := sound.reached.coherent history
  have loopless : ¬ Names .self event (hash event) := by
    intro names
    obtain ⟨parent, self, -⟩ := names_iff.mp names
    cases (extending.trans rootless).symm.trans self
  have tracked : (node.extend event).replica.Tracked := coherent.toTracked.addEvent loopless
  have holds {known : Event} (held : (node.extend event).replica.Holds known) :
      known ∈ created ++ [event] :=
    List.mem_append.mpr <| held.of_addEvent.imp coherent.mem_of_holds List.mem_singleton.mpr
  have within : (node.extend event).replica.events ⊆ {known | known ∈ created ++ [event]} :=
    fun known mem => holds ((mem_events_iff tracked.linked).mp mem)
  have names : parent .other event = some named := asked
  have vacant (hash : EventHash) : hash ∉ peer.replica.graph :=
    empty ▸ ShadowGraph.not_mem_empty hash
  refine Node.not_takesBatch_of_late tracked (empty ▸ .empty) ?_ ?_ names pending ?_
    ((holds_addEvent_iff insertable).mpr (.inr rfl)) (fun held => vacant _ held.mem) (vacant _)
    ((List.finite_toSet _).subset within) ?_ synced
  · intro known held
    rcases List.mem_append.mp (holds held) with old | new
    · exact wirable known old
    · exact List.mem_singleton.mp new ▸ wire
  · exact fun known held => (vacant _ held.mem).elim
  · intro known heldKnown sameKnown
    have twin : known = older :=
      Option.some.inj (heldKnown.symm.trans ((congrArg _ (sameKnown.trans same.symm)).trans
        held.addEvent))
    exact twin ▸ below
  · have few := ncard_le_length (Set.sdiff_subset.trans within : _ \ peer.replica.events ⊆ _)
    rw [List.length_append, List.length_singleton] at few
    exact few.trans room

namespace Network

variable {network : Network} {place peer : Nat} {node other : Node}

/-- In a sound network of an unforked history a sync between two nodes at one watermark succeeds,
and each node takes a batch of what it lacks. -/
theorem Sound.sync_takesBatch (sound : network.Sound created)
    (wirable : ∀ event ∈ created, event.IsWirable) (history : IsHistory {event | event ∈ created})
    (unforked : IsUnforked {event | event ∈ created}) (apart : place ≠ peer)
    (found : network.nodes[place]? = some node) (otherFound : network.nodes[peer]? = some other)
    (level : node.replica.watermark = other.replica.watermark) :
    ∃ outcome after node' other', Network.sync place peer network = .ok outcome after ∧
      after.Sound created ∧ after.nodes[place]? = some node' ∧ after.nodes[peer]? = some other' ∧
      node.TakesBatch other node' ∧ other.TakesBatch node other' := by
  have ours := sound node (Array.mem_of_getElem? found)
  have theirs := sound other (Array.mem_of_getElem? otherFound)
  obtain ⟨outcome, node', other', synced, -, takes, otherTakes⟩ :=
    ours.syncWith_takesBatch theirs wirable history unforked level
  have result := sync_of_syncWith found otherFound apart synced
  have kept := sound.sync wirable history place peer
  rw [result] at kept
  refine ⟨outcome, _, node', other', result, kept, ?_, ?_, takes, otherTakes⟩
  · exact (getElem?_setNode_ne apart).trans (getElem?_setNode found)
  · exact getElem?_setNode ((getElem?_setNode_ne apart.symm).trans otherFound)

/-- After a number of syncs each node lacks so many batches less than before. -/
theorem Sound.syncPairs_replicate (sound : network.Sound created)
    (wirable : ∀ event ∈ created, event.IsWirable) (history : IsHistory {event | event ∈ created})
    (unforked : IsUnforked {event | event ∈ created}) (apart : place ≠ peer)
    (found : network.nodes[place]? = some node) (otherFound : network.nodes[peer]? = some other)
    (level : node.replica.watermark = other.replica.watermark) (rounds : Nat) :
    ∃ after node' other', syncPairs (List.replicate rounds (place, peer)) network = .ok () after ∧
      after.nodes[place]? = some node' ∧ after.nodes[peer]? = some other' ∧
      node'.replica.events ∪ other'.replica.events = node.replica.events ∪ other.replica.events ∧
      (other'.replica.events \ node'.replica.events).ncard =
        (other.replica.events \ node.replica.events).ncard - node.batchLimit * rounds ∧
      (node'.replica.events \ other'.replica.events).ncard =
        (node.replica.events \ other.replica.events).ncard - other.batchLimit * rounds := by
  -- a sync keeps all that the statement asks of the network, so the later ones are a run like it
  induction rounds generalizing network node other with
  | zero => exact ⟨network, node, other, rfl, found, otherFound, rfl, rfl, rfl⟩
  | succ rounds ih =>
    obtain ⟨outcome, met, metNode, metOther, synced, metSound, metFound, metOtherFound, takes,
      otherTakes⟩ := sound.sync_takesBatch wirable history unforked apart found otherFound level
    have metLevel : metNode.replica.watermark = metOther.replica.watermark := by
      rw [takes.watermark, otherTakes.watermark, level]
    obtain ⟨after, node', other', finished, foundAfter, otherFoundAfter, union, lacked,
      lackedOther⟩ := ih metSound metFound metOtherFound metLevel
    have finite := (sound node (Array.mem_of_getElem? found)).finite_events history
    have otherFinite := (sound other (Array.mem_of_getElem? otherFound)).finite_events history
    refine ⟨after, node', other', ?_, foundAfter, otherFoundAfter,
      union.trans (takes.union_eq otherTakes), ?_, ?_⟩
    · rw [List.replicate_succ, Network.syncPairs, synced]
      exact finished
    · rw [lacked, takes.ncard_lacked otherTakes otherFinite, takes.batchLimit, Nat.sub_sub,
        Nat.mul_succ, Nat.add_comm]
    · rw [lackedOther, otherTakes.ncard_lacked takes finite, otherTakes.batchLimit, Nat.sub_sub,
        Nat.mul_succ, Nat.add_comm]

theorem Sound.sync_fills (sound : network.Sound created)
    (wirable : ∀ event ∈ created, event.IsWirable) (history : IsHistory {event | event ∈ created})
    (unforked : IsUnforked {event | event ∈ created}) (apart : place ≠ peer)
    (found : network.nodes[place]? = some node) (otherFound : network.nodes[peer]? = some other)
    (level : node.replica.watermark = other.replica.watermark)
    (room : created.length ≤ other.batchLimit) :
    ∃ other', (left (Network.sync place peer network)).nodes[peer]? = some other' ∧
      other'.Sound created ∧ other'.chain = other.chain ∧ other.TakesBatch node other' ∧
      node.replica.events ⊆ other'.replica.events := by
  have ours := sound node (Array.mem_of_getElem? found)
  obtain ⟨outcome, after, node', other', synced, afterSound, nodeAfter, otherAfter, takes,
    otherTakes⟩ := sound.sync_takesBatch wirable history unforked apart found otherFound level
  have chains := sound.chains_sync wirable history place peer
  rw [synced, left] at chains ⊢
  refine ⟨other', otherAfter, afterSound other' (Array.mem_of_getElem? otherAfter), ?_, otherTakes,
    ?_⟩
  · have here := congrArg (fun chains => chains[peer]?) chains
    simpa only [Array.getElem?_map, otherAfter, otherFound, Option.map_some, Option.some.injEq]
      using here
  · have finite := ours.finite_events history
    have lacked := otherTakes.ncard_lacked takes finite
    have few := ours.ncard_lacked_le history other.replica.events
    have held := (afterSound node' (Array.mem_of_getElem? nodeAfter)).finite_events history
    rw [Nat.sub_eq_zero_of_le (few.trans room),
      Set.ncard_eq_zero (held.subset Set.sdiff_subset), Set.sdiff_eq_empty] at lacked
    exact takes.keeps.trans lacked

theorem create_of_insertable {clock : Nat → Timestamp} {otherParent : Option Descriptor}
    {transactions : List Bytes} {event : Event} (found : network.nodes[place]? = some node)
    (built : (node.draft otherParent transactions).build (clock 0) = .ok event)
    (insertable : node.replica.classify event = .insertable) :
    create place clock otherParent transactions network =
      .ok (some event) (network.setNode place (node.extend event)) := by
  have succeeded := Node.createEvent_of_insertable built insertable
  simp only [create, found, succeeded]

/-- What a node without events of its own drafts on an event of its peer is insertable after a sync
with this peer, whichever generation it names. -/
theorem Sound.sync_draft {named : Descriptor} {transactions : List Bytes} {timestamp : Timestamp}
    {event older : Event} (sound : network.Sound created)
    (wirable : ∀ event ∈ created, event.IsWirable) (history : IsHistory {event | event ∈ created})
    (unforked : IsUnforked {event | event ∈ created}) (apart : place ≠ peer)
    (found : network.nodes[place]? = some node) (otherFound : network.nodes[peer]? = some other)
    (level : node.replica.watermark = other.replica.watermark)
    (room : created.length ≤ other.batchLimit) (rootless : other.lastEvent = none)
    (built : (other.draft (some named) transactions).build timestamp = .ok event)
    (fresh : DagEvent.hash event ∉ created.map DagEvent.hash)
    (above : ¬ generation event ≤ other.replica.watermark) (held : node.replica.Holds older)
    (same : DagEvent.hash older = named.hash) :
    ∃ other', (left (Network.sync place peer network)).nodes[peer]? = some other' ∧
      other'.Sound created ∧ other'.lastEvent = none ∧
      other'.replica.watermark = other.replica.watermark ∧ other'.batchLimit = other.batchLimit ∧
      other'.replica.Holds older ∧
      (other'.draft (some named) transactions).build timestamp = .ok event ∧
      other'.replica.classify event = .insertable := by
  obtain ⟨other', after, otherSound, chain, takes, filled⟩ :=
    sound.sync_fills wirable history unforked apart found otherFound level room
  obtain ⟨sameCreator, sameLast⟩ := Prod.mk.inj chain
  have coherent := (sound node (Array.mem_of_getElem? found)).reached.coherent history
  have here : other'.replica.Holds older :=
    (mem_events_iff (otherSound.reached.coherent history).linked).mp
      (filled ((mem_events_iff coherent.linked).mpr held))
  have drafts : other'.draft (some named) transactions = other.draft (some named) transactions := by
    simp only [Node.draft, Node.nextGeneration, sameCreator, sameLast, takes.watermark]
  rw [← drafts] at built
  have last := sameLast.trans rootless
  exact ⟨other', after, otherSound, last, takes.watermark, takes.batchLimit, here, built,
    otherSound.classify_draft history last built fresh (takes.watermark ▸ above)
      (same ▸ here.mem)⟩

/-- However nodes with distinct creators were operated, two of them at one watermark make exact
progress: a sync rejects nothing and lets each take a full batch of what it lacks, or all of it, and
the two hold the same events after as many syncs as the one that lacks more batches needs, and not
before. -/
theorem batches_make_progress (run : Operated created network)
    (injective : Set.InjOn DagEvent.hash {event | event ∈ created}) (honest : IsHonest created)
    (distinct : network.creators.toList.Nodup) (apart : place ≠ peer)
    (found : network.nodes[place]? = some node) (otherFound : network.nodes[peer]? = some other)
    (level : node.replica.watermark = other.replica.watermark) (room : 1 ≤ node.batchLimit)
    (otherRoom : 1 ≤ other.batchLimit) :
    (∃ outcome node' other', node.syncWith other = .ok outcome (node', other') ∧
      outcome.rejected = 0 ∧ node.TakesBatch other node' ∧ other.TakesBatch node other') ∧
    ∀ rounds, ∃ after, syncPairs (List.replicate rounds (place, peer)) network = .ok () after ∧
      after.holdings place ∪ after.holdings peer = node.replica.events ∪ other.replica.events ∧
      (after.holdings place = after.holdings peer ↔
        max ((other.replica.events \ node.replica.events).ncard ⌈/⌉ node.batchLimit)
          ((node.replica.events \ other.replica.events).ncard ⌈/⌉ other.batchLimit) ≤ rounds) := by
  obtain ⟨rooted, sound⟩ := run.sound injective honest
  have history := rooted.isHistory honest injective
  have unforked : IsUnforked {event | event ∈ created} :=
    (run.lineage injective honest distinct).1.unforked
  have ours := sound node (Array.mem_of_getElem? found)
  have theirs := sound other (Array.mem_of_getElem? otherFound)
  refine ⟨ours.syncWith_takesBatch theirs rooted.wirable history unforked level, fun rounds => ?_⟩
  obtain ⟨after, node', other', finished, foundAfter, otherFoundAfter, union, lacked,
    lackedOther⟩ :=
    sound.syncPairs_replicate rooted.wirable history unforked apart found otherFound level rounds
  refine ⟨after, finished, ?_, ?_⟩ <;>
    rw [holdings_of_getElem? foundAfter, holdings_of_getElem? otherFoundAfter]
  · exact union
  · have finite : (node.replica.events ∪ other.replica.events).Finite :=
      (ours.finite_events history).union (theirs.finite_events history)
    rw [← union, Set.finite_union] at finite
    rw [max_le_iff, ceilDiv_le_iff_le_mul room, ceilDiv_le_iff_le_mul otherRoom,
      ← Nat.sub_eq_zero_iff_le, ← Nat.sub_eq_zero_iff_le, ← lacked, ← lackedOther,
      Set.ncard_eq_zero (finite.2.subset Set.sdiff_subset),
      Set.ncard_eq_zero (finite.1.subset Set.sdiff_subset), Set.sdiff_eq_empty, Set.sdiff_eq_empty]
    exact ⟨fun same => ⟨same.superset, same.subset⟩, fun both => both.2.antisymm both.1⟩

def newcomer (name : String) (number : UInt64) (batchLimit : Nat) : Node :=
  { name, creator := .ofIndex number, batchLimit }

/-- What the first node creates when it is stirred so many times, and the network after that. -/
def stirs (network : Network) : Nat → List Event × Network
  | 0 => ([], network)
  | count + 1 =>
    let (made, stirred) := network.stirs count
    (made ++ born (stir stirred), left (stir stirred))

theorem gossiped_stirs
    (fresh : ∀ node ∈ network.nodes, node.replica = ∅ ∧ node.lastEvent = none) (count : Nat) :
    Gossiped (network.stirs count).1 (network.stirs count).2 := by
  induction count with
  | zero => exact .start fresh
  | succ count ih => exact ih.stir

theorem getElem?_stirs {other : Nat} (differ : other ≠ 0) (count : Nat) :
    (network.stirs count).2.nodes[other]? = network.nodes[other]? := by
  induction count with
  | zero => rfl
  | succ count ih => exact (getElem?_create_ne differ).trans ih

def quartet : Network :=
  ⟨#[newcomer "ann" 1 4, newcomer "bob" 2 4, newcomer "cat" 3 4, newcomer "dan" 4 2]⟩

/-- The first node has created three events. The second one would draft an event of generation 1 on
the last of them if it were told that this one has the first generation. -/
theorem quartet_stirred : ∃ made stirred ann last event, quartet.stirs 3 = (made, stirred) ∧
    made.length = 3 ∧ stirred.creators.toList.Nodup ∧ stirred.nodes[0]? = some ann ∧
    (ann.replica.watermark = Generation.nothingExpired ∧ ann.batchLimit = 4) ∧
    ann.lastEvent = some last ∧ last.generation = 2 ∧ last.hash ∈ ann.replica.graph ∧
    ((newcomer "bob" 2 4).draft (some { last with generation := 0 }) []).build 0 = .ok event ∧
    event.generation = 1 ∧ ((made ++ [event]).map DagEvent.hash).Nodup := by
  have computed : (quartet.stirs 3).1.length = 3 ∧ (quartet.stirs 3).2.creators.toList.Nodup ∧
      (quartet.stirs 3).2.nodes[0]?.any fun ann =>
        (ann.replica.watermark = Generation.nothingExpired ∧ ann.batchLimit = 4) ∧
        ann.lastEvent.any fun last => (last.generation = 2 ∧ last.hash ∈ ann.replica.graph) ∧
          let draft := (newcomer "bob" 2 4).draft (some { last with generation := 0 }) []
          (draft.build 0).toOption.any fun event => event.generation = 1 ∧
            (((quartet.stirs 3).1 ++ [event]).map DagEvent.hash).Nodup := by
    decide +kernel
  obtain ⟨three, distinct, led⟩ := computed
  obtain ⟨ann, found, led⟩ := (Option.any_eq_true _ _).mp led
  obtain ⟨low, led⟩ := of_decide_eq_true led
  obtain ⟨last, lastEvent, led⟩ := (Option.any_eq_true _ _).mp led
  obtain ⟨⟨two, held⟩, led⟩ := of_decide_eq_true led
  obtain ⟨event, drafted, led⟩ := (Option.any_eq_true _ _).mp led
  obtain ⟨one, hashes⟩ := of_decide_eq_true led
  have built : ((newcomer "bob" 2 4).draft (some { last with generation := 0 }) []).build 0 =
      .ok event := by
    cases result : ((newcomer "bob" 2 4).draft (some { last with generation := 0 }) []).build 0 with
    | error error => simp [result, Except.toOption] at drafted
    | ok event' => simpa [result, Except.toOption] using drafted
  exact ⟨(quartet.stirs 3).1, (quartet.stirs 3).2, ann, last, event, Prod.mk.eta.symm, three,
    distinct, found, low, lastEvent, two, held, built, one, hashes⟩

/-- The last node takes the three events of the first in two batches. -/
theorem batches_make_progress_quartet :
    let stirred := (quartet.stirs 3).2
    ∃ node other, stirred.nodes[0]? = some node ∧ stirred.nodes[3]? = some other ∧
      (∃ outcome node' other', node.syncWith other = .ok outcome (node', other') ∧
        outcome.rejected = 0 ∧ node.TakesBatch other node' ∧ other.TakesBatch node other') ∧
      ∃ after, syncPairs [(0, 3), (0, 3)] stirred = .ok () after ∧
        after.holdings 0 = after.holdings 3 := by
  have run : Gossiped (quartet.stirs 3).1 (quartet.stirs 3).2 :=
    gossiped_stirs (by simp [quartet, newcomer]) 3
  have danFound : (quartet.stirs 3).2.nodes[3]? = some (newcomer "dan" 4 2) :=
    getElem?_stirs (by decide) 3
  obtain ⟨made, stirred, ann, -, event, stirs, three, distinct, found, ⟨low, limit⟩, -, -, -, -, -,
    hashes⟩ := quartet_stirred
  rw [stirs] at run danFound ⊢
  dsimp only at run danFound ⊢
  have hashesMade := (List.nodup_append.mp (List.map_append ▸ hashes)).1
  have injective : Set.InjOn DagEvent.hash {event | event ∈ made} :=
    List.inj_on_of_nodup_map hashesMade
  have honest := IsHonest.of_refers run.refers_otherParent injective
  obtain ⟨closed, sound⟩ := run.sound injective
  have history := closed.isHistory injective
  have lacked := (sound ann (Array.mem_of_getElem? found)).ncard_lacked_le history
    (newcomer "dan" 4 2).replica.events
  have danLacked := (sound _ (Array.mem_of_getElem? danFound)).ncard_lacked_le history
    ann.replica.events
  obtain ⟨once, again⟩ := batches_make_progress run.operated injective honest distinct
    (by decide : 0 ≠ 3) found danFound low (limit ▸ by decide) (by decide)
  obtain ⟨after, synced, -, equal⟩ := again 2
  refine ⟨ann, newcomer "dan" 4 2, found, danFound, once, after, synced, equal.mpr ?_⟩
  rw [limit, show (newcomer "dan" 4 2).batchLimit = 2 from rfl, max_le_iff,
    ceilDiv_le_iff_le_mul (by decide), ceilDiv_le_iff_le_mul Nat.two_pos]
  omega

def misname (network : Network) : Option Descriptor :=
  (network.nodes[0]?.bind Node.lastEvent).map fun last => { last with generation := 0 }

/-- The second node takes the three events of the first and creates one that misnames the last of
them. Sorted by generation this one comes before its other-parent, so that the third node, which has
room for all four, refuses it. -/
theorem not_batches_make_progress_misnamed :
    let (made, stirred) := quartet.stirs 3
    let misled := create 1 (fun _ => 0) (misname stirred) [] (left (sync 0 1 stirred))
    Operated (made ++ born misled) (left misled) ∧
    Set.InjOn DagEvent.hash {event | event ∈ made ++ born misled} ∧
    (left misled).creators.toList.Nodup ∧
    ∃ node other, (left misled).nodes[1]? = some node ∧ (left misled).nodes[2]? = some other ∧
      node.replica.watermark = other.replica.watermark ∧ 1 ≤ node.batchLimit ∧
      1 ≤ other.batchLimit ∧
      ¬ ∃ outcome node' other', node.syncWith other = .ok outcome (node', other') ∧
        outcome.rejected = 0 ∧ node.TakesBatch other node' ∧ other.TakesBatch node other' := by
  have run : Gossiped (quartet.stirs 3).1 (quartet.stirs 3).2 :=
    gossiped_stirs (by simp [quartet, newcomer]) 3
  have bobFound : (quartet.stirs 3).2.nodes[1]? = some (newcomer "bob" 2 4) :=
    getElem?_stirs (by decide) 3
  have catFound : (quartet.stirs 3).2.nodes[2]? = some (newcomer "cat" 3 4) :=
    getElem?_stirs (by decide) 3
  obtain ⟨made, stirred, ann, last, event, stirs, three, distinct, found, ⟨low, -⟩, lastEvent, two,
    held, built, one, hashes⟩ := quartet_stirred
  rw [stirs] at run bobFound catFound ⊢
  have asked : misname stirred = some { last with generation := 0 } := by
    simp only [misname, found, Option.bind_some, lastEvent, Option.map_some]
  obtain ⟨hashesMade, -, fresh⟩ := List.nodup_append.mp (List.map_append ▸ hashes)
  have injective : Set.InjOn DagEvent.hash {event | event ∈ made} :=
    List.inj_on_of_nodup_map hashesMade
  obtain ⟨closed, sound⟩ := run.sound injective
  have history := closed.isHistory injective
  have unforked : IsUnforked {event | event ∈ made} := (run.lineage injective distinct).1.unforked
  obtain ⟨newest, rfl, annHolds⟩ :=
    (sound ann (Array.mem_of_getElem? found)).holds_lastEvent history lastEvent held
  have above : ¬ generation event ≤ (newcomer "bob" 2 4).replica.watermark := by
    rw [show generation event = 1 from one]
    decide
  obtain ⟨bob, heard, bobSound, rootless, bobLow, limit, holds, bobBuilt, insertable⟩ :=
    sound.sync_draft closed.wirable history unforked (by decide : 0 ≠ 1) found bobFound low
      (three ▸ (by decide : 3 ≤ 4)) rfl built
      (fun mem => fresh _ mem _ (List.mem_singleton_self _) rfl) above annHolds rfl
  have fits : ([] : List Bytes).length < 2 ^ 64 := by decide
  have fit (payload : Bytes) (mem : payload ∈ []) : payload.length < 2 ^ 64 :=
    (List.not_mem_nil mem).elim
  have grown := (run.operated.sync 0 1).create (misname stirred) fits fit 1 fun _ => 0
  have created : create 1 (fun _ => 0) (misname stirred) [] (left (sync 0 1 stirred)) =
      .ok (some event) ((left (sync 0 1 stirred)).setNode 1 (bob.extend event)) :=
    asked ▸ create_of_insertable heard bobBuilt insertable
  rw [created] at grown
  dsimp only
  rw [created]
  have catHeard : (left (sync 0 1 stirred)).nodes[2]? = some (newcomer "cat" 3 4) :=
    (getElem?_sync_ne (by decide) (by decide)).trans catFound
  refine ⟨grown, ?_, ?_, bob.extend event, newcomer "cat" 3 4, ?_, ?_, ?_, ?_, ?_, ?_⟩
  · exact List.inj_on_of_nodup_map hashes
  · have kept : ((left (sync 0 1 stirred)).setNode 1 (bob.extend event)).creators =
        (left (sync 0 1 stirred)).creators := map_setNode heard rfl
    rw [left, kept, creators_eq_of_chains (sound.chains_sync closed.wirable history 0 1)]
    exact distinct
  · exact getElem?_setNode heard
  · exact (getElem?_setNode_ne (by decide)).trans catHeard
  · exact addEvent_watermark.trans bobLow
  · exact (by decide : 1 ≤ 4).trans_eq limit.symm
  · decide
  · rintro ⟨outcome, node', cat', synced, -, -, takes⟩
    have wire := (Node.creates_of_build bobBuilt fits fit).wirable
    have below : generation event < generation newest := by
      rw [show generation event = 1 from one, show generation newest = 2 from two]
      decide
    have pending : ¬ ({ descriptor newest with generation := 0 } : Descriptor).generation ≤
        (newcomer "cat" 3 4).replica.watermark :=
      show ¬ (0 : Generation) ≤ Generation.nothingExpired by decide
    exact bobSound.not_takesBatch_extend history closed.wirable rootless bobBuilt insertable wire
      holds rfl below pending rfl (three ▸ (by decide : 3 + 1 ≤ 4)) synced takes

end Network
end Hashgraph
