import Hashgraph.Proofs.Network.Progress
import Hashgraph.Proofs.Node.Ledger

/-! The counters of the nodes over a whole run. Through creation, exchanges and retention the counters
of every node account for all that it holds. The alignment of the watermarks, with which a network
settles, sweeps past the counters: afterwards a node's account is short of what the alignment has
removed from it. -/

namespace Hashgraph

open DagEvent Replica

namespace Network

inductive Move where
  | create (place : Nat) (clock : Nat → Timestamp) (otherParent : Option Descriptor)
    (transactions : List Bytes)
  | sync (place peer : Nat)
  | expire (place : Nat) (retained : Generation)

def Move.Fits : Move → Prop
  | .create _ _ _ transactions => transactions.length < UInt64.size ∧
    ∀ transaction ∈ transactions, transaction.length < UInt64.size
  | .sync _ _ | .expire _ _ => True

def Move.IsSync : Move → Prop
  | .sync _ _ => True
  | .create .. | .expire _ _ => False

theorem Move.IsSync.fits {move : Move} (sync : move.IsSync) : move.Fits := by
  cases move with
  | create => exact sync.elim
  | sync => trivial
  | expire => trivial

def move (network : Network) : Move → Network
  | .create place clock otherParent transactions =>
    left (create place clock otherParent transactions network)
  | .sync place peer => left (sync place peer network)
  | .expire place retained =>
    match network.nodes[place]? with
    | none => network
    | some node => network.setNode place (node.expireRetaining retained).2

def moveAll (network : Network) (moves : List Move) : Network := moves.foldl move network

/-- How many shadows the alignment of the watermarks removes at a place, past the counters. -/
def missed (network : Network) (place : Nat) : Nat :=
  network.nodes[place]?.elim 0 fun node => network.highestWatermark?.elim 0 fun watermark =>
    if node.replica.watermark < watermark then (node.replica.expireTo watermark).1 else 0

/-- A sync counts for each node what the node takes of the list for it. -/
def CountsSyncs (network : Network) : Prop :=
  ∀ place peerPlace node peer, network.nodes[place]? = some node →
    network.nodes[peerPlace]? = some peer → ∃ toPeer toNode outcome after,
      sendLists node.replica peer.replica node.name peer.name = .ok (toPeer, toNode) ∧
      sync place peerPlace network = .ok outcome after ∧
      (place ≠ peerPlace → ∃ node' peer', after.nodes[place]? = some node' ∧
        after.nodes[peerPlace]? = some peer' ∧
        node'.brought = node.brought + min toNode.length node.batchLimit ∧
        peer'.brought = peer.brought + min toPeer.length peer.batchLimit) ∧
      (place = peerPlace → ∃ node', after.nodes[place]? = some node' ∧ node'.brought =
        node.brought + min toNode.length node.batchLimit + min toPeer.length node.batchLimit)

/-- Every node is accounted for, up to what was removed at its place past the counters. -/
def Accounted (uncounted : Nat → Nat) (network : Network) : Prop :=
  ∀ place (node : Node), network.nodes[place]? = some node → node.Accounted (uncounted place) 0 0

variable {network : Network} {uncounted : Nat → Nat}

theorem size_move (network : Network) (move : Move) : (network.move move).size = network.size := by
  cases move with
  | create place clock otherParent transactions =>
    change (left (create place clock otherParent transactions network)).size = network.size
    unfold create
    split
    · rfl
    · split <;> exact size_setNode
  | sync place peer =>
    change (left (sync place peer network)).size = network.size
    unfold sync
    split
    · split
      · split <;> exact size_setNode
      · split <;> exact size_setNode.trans size_setNode
    · rfl
  | expire place retained =>
    cases found : network.nodes[place]? with
    | none => rw [move, found]
    | some node =>
      rw [move, found]
      exact size_setNode

theorem size_moveAll (network : Network) (moves : List Move) :
    (network.moveAll moves).size = network.size := by
  induction moves generalizing network with
  | nil => rfl
  | cons first rest ih => exact (ih (network.move first)).trans (network.size_move first)

theorem size_alignWatermarks (network : Network) :
    network.alignWatermarks.size = network.size := by
  unfold alignWatermarks
  split
  · rfl
  · exact Array.size_map

/-- Where another node has expired all that a node holds, the alignment removes all of it. -/
theorem missed_of_overtaken {events : Set Event} {place : Nat} {node peer : Node}
    (found : network.nodes[place]? = some node) (peerMem : peer ∈ network.nodes)
    (below : node.replica.watermark < peer.replica.watermark)
    (coherent : Coherent events node.replica) (history : IsHistory events)
    (old : ∀ event ∈ node.replica.events, generation event ≤ peer.replica.watermark) :
    network.missed place = node.replica.graph.size := by
  have listed := List.mem_map_of_mem (f := fun node : Node => node.replica.watermark)
    (Array.mem_toList_iff.mpr peerMem)
  cases highest : network.highestWatermark? with
  | none =>
    rw [highestWatermark?, List.max?_eq_none_iff] at highest
    rw [highest] at listed
    exact (List.not_mem_nil listed).elim
  | some watermark =>
    have above : peer.replica.watermark ≤ watermark :=
      (isGreatest_of_highestWatermark? highest).2 ⟨peer, peerMem, rfl⟩
    rw [missed, found, highest]
    change (if node.replica.watermark < watermark then _ else _) = _
    have raises := Int64.lt_of_lt_of_le below above
    rw [if_pos raises]
    exact coherent.expireTo_all history raises
      fun event held => Int64.le_trans (old event held) above

namespace Accounted

theorem start (fresh : ∀ node ∈ network.nodes, node.replica = ∅ ∧ node.stats = {}) :
    network.Accounted fun _ => 0 :=
  fun _ node found =>
    let ⟨blank, idle⟩ := fresh node (Array.mem_of_getElem? found)
    .fresh blank idle

theorem setNode (accounted : network.Accounted uncounted) {place : Nat} {node : Node}
    (new : node.Accounted (uncounted place) 0 0) :
    (network.setNode place node).Accounted uncounted := by
  intro other member found
  by_cases same : other = place
  · subst same
    obtain ⟨there, -⟩ := Array.getElem?_eq_some_iff.mp found
    rw [Network.setNode, Array.size_setIfInBounds] at there
    rw [Network.setNode, Array.getElem?_setIfInBounds_self_of_lt there] at found
    exact Option.some.inj found ▸ new
  · rw [getElem?_setNode_ne same] at found
    exact accounted other member found

theorem countsSyncs (accounted : network.Accounted uncounted) : network.CountsSyncs := by
  intro place peerPlace node peer found peerFound
  by_cases same : place = peerPlace
  · subst same
    obtain rfl := Option.some.inj (found.symm.trans peerFound)
    obtain ⟨toPeer, toNode, outcome, node', lists, synced, -, brought⟩ :=
      (accounted place node found).syncWithSelf
    refine ⟨toPeer, toNode, outcome, network.setNode place node', lists, ?_,
      fun differ => (differ rfl).elim, fun _ => ⟨node', getElem?_setNode found, brought⟩⟩
    simp only [sync, found, if_true, synced]
  · obtain ⟨toPeer, toNode, outcome, node', peer', lists, synced, -, brought, peerBrought⟩ :=
      (accounted place node found).syncWith (accounted peerPlace peer peerFound)
    have peerStill : (network.setNode place node').nodes[peerPlace]? = some peer :=
      (getElem?_setNode_ne (Ne.symm same)).trans peerFound
    refine ⟨toPeer, toNode, outcome, _, lists, sync_of_syncWith found peerFound same synced,
      fun _ => ⟨node', peer', ?_, getElem?_setNode peerStill, brought, peerBrought⟩,
      fun equal => (same equal).elim⟩
    exact (getElem?_setNode_ne same).trans (getElem?_setNode found)

/-- A sync succeeds and keeps the account, also where there is no node. -/
theorem sync (accounted : network.Accounted uncounted) (place peerPlace : Nat) :
    ∃ outcome, Network.sync place peerPlace network =
        .ok outcome (network.move (.sync place peerPlace)) ∧
      (network.move (.sync place peerPlace)).Accounted uncounted := by
  cases found : network.nodes[place]? with
  | none =>
    have idle : Network.sync place peerPlace network = .ok {} network := by
      simp only [Network.sync, found]
    rw [move, idle]
    exact ⟨{}, rfl, accounted⟩
  | some node =>
    cases peerFound : network.nodes[peerPlace]? with
    | none =>
      have idle : Network.sync place peerPlace network = .ok {} network := by
        simp only [Network.sync, found, peerFound]
      rw [move, idle]
      exact ⟨{}, rfl, accounted⟩
    | some peer =>
      by_cases same : place = peerPlace
      · subst same
        obtain ⟨_, _, outcome, node', -, synced, kept, -⟩ :=
          (accounted place node found).syncWithSelf
        have done : Network.sync place place network = .ok outcome (network.setNode place node') := by
          simp only [Network.sync, found, if_true, synced]
        rw [move, done]
        exact ⟨outcome, rfl, accounted.setNode kept⟩
      · obtain ⟨_, _, outcome, node', peer', -, synced, ⟨kept, peerKept⟩, -⟩ :=
          (accounted place node found).syncWith (accounted peerPlace peer peerFound)
        rw [move, sync_of_syncWith found peerFound same synced]
        exact ⟨outcome, rfl, (accounted.setNode kept).setNode peerKept⟩

theorem move (accounted : network.Accounted uncounted) {move : Move} (fits : move.Fits) :
    (network.move move).Accounted uncounted := by
  cases move with
  | create place clock otherParent transactions =>
    obtain ⟨count, each⟩ := fits
    change (left (Network.create place clock otherParent transactions network)).Accounted uncounted
    rcases network.create_cases place clock otherParent count each with
      ⟨node, event, found, creates, succeeded, -, extended⟩ | ⟨-, unchanged⟩
    · have insertable : node.replica.classify event = .insertable :=
        Node.insertable_of_createWithin succeeded
      rw [extended]
      exact accounted.setNode ((accounted place node found).extend creates.wirable insertable)
    · rw [unchanged]
      exact accounted
  | sync place peer =>
    obtain ⟨-, -, kept⟩ := accounted.sync place peer
    exact kept
  | expire place retained =>
    change (match network.nodes[place]? with
      | none => network
      | some node => network.setNode place (node.expireRetaining retained).2).Accounted uncounted
    split
    · exact accounted
    · rename_i node found
      exact accounted.setNode ((accounted place node found).expireRetaining retained)

theorem moveAll (accounted : network.Accounted uncounted) {moves : List Move}
    (fits : ∀ move ∈ moves, move.Fits) : (network.moveAll moves).Accounted uncounted := by
  induction moves generalizing network with
  | nil => exact accounted
  | cons first rest ih =>
    exact ih (accounted.move (fits first List.mem_cons_self))
      fun move mem => fits move (List.mem_cons_of_mem _ mem)

/-- The alignment leaves out of account what it removes. -/
theorem alignWatermarks (accounted : network.Accounted fun _ => 0) :
    network.alignWatermarks.Accounted network.missed := by
  intro place node found
  unfold Network.alignWatermarks at found
  cases highest : network.highestWatermark? with
  | none =>
    rw [highest] at found
    have nothing : network.missed place = 0 := by
      rw [missed, found, highest]
      rfl
    rw [nothing]
    exact accounted place node found
  | some watermark =>
    rw [highest] at found
    dsimp only at found
    rw [Array.getElem?_map] at found
    obtain ⟨before, there, rfl⟩ := Option.map_eq_some_iff.mp found
    have kept := accounted place before there
    have amount : network.missed place = if before.replica.watermark < watermark
        then (before.replica.expireTo watermark).1 else 0 := by
      rw [missed, there, highest]
      rfl
    rw [amount]
    unfold raiseWatermark
    split
    · exact Nat.zero_add (before.replica.expireTo watermark).1 ▸ kept.expireTo watermark _ rfl rfl
    · exact kept

theorem syncPairs (accounted : network.Accounted uncounted) (pairs : List (Nat × Nat)) :
    Network.syncPairs pairs network =
      .ok () (network.moveAll (pairs.map fun (place, peer) => .sync place peer)) ∧
    (network.moveAll (pairs.map fun (place, peer) => .sync place peer)).Accounted uncounted := by
  induction pairs generalizing network with
  | nil => exact ⟨rfl, accounted⟩
  | cons pair rest ih =>
    obtain ⟨place, peer⟩ := pair
    obtain ⟨outcome, synced, kept⟩ := accounted.sync place peer
    obtain ⟨finished, last⟩ := ih kept
    refine ⟨?_, last⟩
    rw [Network.syncPairs, synced]
    exact finished

/-- However many passes it takes, settling goes on to sync and never fails. -/
theorem converge (accounted : network.Accounted uncounted) (passes : Nat) :
    ∃ used syncs, (∀ move ∈ syncs, move.IsSync) ∧
      Network.converge passes network = .ok used (network.moveAll syncs) ∧
      (network.moveAll syncs).Accounted uncounted := by
  induction passes generalizing network with
  | zero => exact ⟨0, [], fun _ mem => (List.not_mem_nil mem).elim, rfl, accounted⟩
  | succ passes ih =>
    rw [Network.converge]
    split
    · exact ⟨0, [], fun _ mem => (List.not_mem_nil mem).elim, rfl, accounted⟩
    · obtain ⟨synced, kept⟩ := accounted.syncPairs (pairs network.size)
      obtain ⟨used, syncs, only, converged, last⟩ := ih kept
      refine ⟨used + 1, (pairs network.size).map (fun (place, peer) => .sync place peer) ++ syncs,
        ?_, ?_, ?_⟩
      · intro move mem
        rcases List.mem_append.mp mem with mem | mem
        · obtain ⟨pair, -, rfl⟩ := List.mem_map.mp mem
          trivial
        · exact only move mem
      · rw [synced]
        dsimp only
        rw [converged, Network.moveAll, Network.moveAll, Network.moveAll, List.foldl_append]
      · rw [Network.moveAll, List.foldl_append]
        exact last

end Accounted

/-- Through every run the counters of every node account for the shadows that it holds, and every
sync counts what each of the two nodes takes. The network then settles by syncs that count alike, but
the counters of a node lack what the alignment of the watermarks has removed from it. -/
theorem balanced_of_moveAll (fresh : ∀ node ∈ network.nodes, node.replica = ∅ ∧ node.stats = {})
    {moves : List Move} (fits : ∀ move ∈ moves, move.Fits) :
    let played := network.moveAll moves
    (played.CountsSyncs ∧ ∀ node ∈ played.nodes, node.Balanced 0) ∧
    ∃ passes syncs, (∀ move ∈ syncs, move.IsSync) ∧
      settle played = .ok passes (played.alignWatermarks.moveAll syncs) ∧
      (∀ done, done <+: syncs → (played.alignWatermarks.moveAll done).CountsSyncs) ∧
      ∀ place (node : Node), (played.alignWatermarks.moveAll syncs).nodes[place]? = some node →
        node.Balanced (played.missed place) := by
  intro played
  have accounted : played.Accounted fun _ => 0 := (Accounted.start fresh).moveAll fits
  have aligned := accounted.alignWatermarks
  obtain ⟨passes, syncs, only, settled, last⟩ := aligned.converge maxSettlePasses
  refine ⟨⟨accounted.countsSyncs, ?_⟩, passes, syncs, only, settled, ?_,
    fun place node found => (last place node found).balanced⟩
  · intro node mem
    obtain ⟨place, found⟩ := Array.mem_iff_getElem?.mp mem
    exact (accounted place node found).balanced
  · intro done start
    exact (aligned.moveAll fun move mem => (only move (start.subset mem)).fits).countsSyncs

def duo : Network := ⟨#[newcomer "ann" 1 2, newcomer "bob" 2 2]⟩

/-- Each of the two nodes creates an event, and the first one expires its own. -/
def parting : List Move :=
  [.create 0 (fun _ => 0) none [], .create 1 (fun _ => 0) none [], .expire 0 0]

theorem duo_fresh : ∀ node ∈ duo.nodes, node.replica = ∅ ∧ node.stats = {} := by
  simp [duo, newcomer]

theorem parting_fits : ∀ move ∈ parting, move.Fits := by
  simp [parting, Move.Fits]

theorem balanced_of_moveAll_parting :
    (duo.moveAll parting).CountsSyncs ∧ ∃ passes settled, settle (duo.moveAll parting) =
      .ok passes settled ∧ ∀ place (node : Node), settled.nodes[place]? = some node →
        node.Balanced ((duo.moveAll parting).missed place) := by
  obtain ⟨⟨counts, -⟩, passes, syncs, -, settled, -, balanced⟩ :=
    balanced_of_moveAll duo_fresh parting_fits
  exact ⟨counts, passes, _, settled, balanced⟩

/-- What the two nodes create, and the network before anything expires. -/
def grown : List Event × Network :=
  let first := create 0 (fun _ => 0) none [] duo
  let second := create 1 (fun _ => 0) none [] (left first)
  ([] ++ born first ++ born second, left second)

theorem gossiped_grown : Gossiped grown.1 grown.2 := by
  have rootless (events : List Event) : Refers events none := fun _ mem => by contradiction
  have short (payload : Bytes) (mem : payload ∈ []) : payload.length < UInt64.size :=
    (List.not_mem_nil mem).elim
  have start : Gossiped [] duo := .start (by simp [duo, newcomer])
  exact (start.create (rootless _) (by decide) short 0 fun _ => 0).create (rootless _) (by decide)
    short 1 fun _ => 0

theorem moveAll_parting : duo.moveAll parting = grown.2.move (.expire 0 0) := rfl

theorem missed_parting : (duo.moveAll parting).missed 1 = 1 := by
  have computed : grown.2.nodes[0]?.any (fun ann => ann.replica.maxGeneration? = some 0 ∧
        ann.replica.watermark < 0) ∧
      grown.2.nodes[1]?.any (fun bob => bob.replica.watermark < 0 ∧ bob.replica.graph.size = 1) ∧
      (grown.1.map DagEvent.hash).Nodup ∧ ∀ event ∈ grown.1, event.generation ≤ 0 := by
    decide +kernel
  obtain ⟨annFacts, bobFacts, distinct, old⟩ := computed
  obtain ⟨ann, annFound, annFacts⟩ := (Option.any_eq_true _ _).mp annFacts
  obtain ⟨annMax, annLow⟩ := of_decide_eq_true annFacts
  obtain ⟨bob, bobFound, bobFacts⟩ := (Option.any_eq_true _ _).mp bobFacts
  obtain ⟨bobLow, bobSize⟩ := of_decide_eq_true bobFacts
  have injective : Set.InjOn DagEvent.hash {event | event ∈ grown.1} :=
    List.inj_on_of_nodup_map distinct
  obtain ⟨closed, sound⟩ := gossiped_grown.sound injective
  have history := closed.isHistory injective
  have coherent := (sound bob (Array.mem_of_getElem? bobFound)).reached.coherent history
  have parted : duo.moveAll parting = grown.2.setNode 0 (ann.expireRetaining 0).2 := by
    rw [moveAll_parting, move, annFound]
  have annAfter : (ann.expireRetaining 0).2.replica.watermark = 0 := by
    have raises : ¬ Generation.minus 0 0 ≤ ann.replica.watermark := Int64.not_le.mpr annLow
    simp only [Node.expireRetaining, annMax, if_neg raises]
    exact expireTo_watermark
  rw [parted]
  refine (missed_of_overtaken ((getElem?_setNode_ne (by decide)).trans bobFound)
    (Array.mem_of_getElem? (getElem?_setNode annFound)) ?_ coherent history ?_).trans bobSize
  · rwa [annAfter]
  · rw [annAfter]
    exact fun event held => old event (coherent.events_subset held)

/-- The second node has created an event that it neither holds at the end nor counts as expired. -/
theorem not_balanced_parting : ∃ passes settled node, settle (duo.moveAll parting) =
    .ok passes settled ∧ settled.nodes[1]? = some node ∧
      node.replica.graph.size + node.stats.shadowsExpired ≠
        node.stats.eventsCreated + node.stats.eventsAccepted := by
  have accounted := ((Accounted.start duo_fresh).moveAll parting_fits).alignWatermarks
  obtain ⟨passes, syncs, -, settled, last⟩ := accounted.converge maxSettlePasses
  have size : ((duo.moveAll parting).alignWatermarks.moveAll syncs).size = 2 := by
    rw [size_moveAll, size_alignWatermarks, size_moveAll]
    rfl
  have there : 1 < ((duo.moveAll parting).alignWatermarks.moveAll syncs).nodes.size :=
    Nat.lt_of_lt_of_eq Nat.one_lt_two size.symm
  refine ⟨passes, _, _, settled, Array.getElem?_eq_getElem there, fun balanced => ?_⟩
  have short := (last 1 _ (Array.getElem?_eq_getElem there)).balance
  rw [missed_parting] at short
  omega

end Network
end Hashgraph
