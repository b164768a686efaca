import Hashgraph.Proofs.Network.Retention

/-! A node can always create its next event. Its own last event may be expired and swept, and the
tip that it picks may have come from anywhere: both are held or expired, the generation it asks for
is above them and above the watermark, and nothing else continues its chain. So the first attempt
succeeds as long as no generation has come to the top of the range. -/

namespace Hashgraph

open DagEvent Replica

namespace Node

variable {node : Node} {otherParent : Option Descriptor} {transactions : List Bytes}

/-- The generation that a node asks for is the least that follows the watermark and both parents. -/
theorem nextGeneration_le_iff {bound : Generation} :
    node.nextGeneration otherParent ≤ bound ↔
      (node.replica.watermark.next ≤ bound ∧ Generation.first ≤ bound) ∧
      ∀ named ∈ node.lastEvent.toList ++ otherParent.toList, named.generation.next ≤ bound := by
  have folds (parents : List Descriptor) (start : Generation) :
      parents.foldl (fun generation parent => max generation parent.generation.next) start ≤ bound ↔
        start ≤ bound ∧ ∀ named ∈ parents, named.generation.next ≤ bound := by
    induction parents generalizing start with
    | nil => simp
    | cons named rest ih =>
      rw [List.foldl_cons, ih, Std.LawfulOrderSup.max_le_iff, List.forall_mem_cons, and_assoc]
  rw [nextGeneration, folds, Std.LawfulOrderSup.max_le_iff]

/-- Below the top of the range there is room for a generation above the watermark and both parents. -/
structure HasRoom (node : Node) : Prop where
  watermark_lt : node.replica.watermark < Int64.maxValue
  held_lt : ∀ event ∈ node.replica.events, generation event < Int64.maxValue
  last_lt : ∀ named ∈ node.lastEvent, named.generation < Int64.maxValue

/-- No other-parent, or one that the node may come to choose, whatever is drawn. -/
def MayChoose (node : Node) (otherParent : Option Descriptor) : Prop :=
  otherParent = none ∨
    ∃ tip ∈ node.otherTips, otherParent = (node.replica.event? tip).map descriptor

theorem mayChoose_chooseOtherParent (node : Node) (generator : Random.Generator) :
    node.MayChoose (node.chooseOtherParent generator).1 := by
  unfold chooseOtherParent
  split
  · exact .inl rfl
  · rename_i first rest listed
    refine .inr ⟨_, ?_, rfl⟩
    rw [listed]
    exact List.getElem_mem _

theorem MayChoose.held (choice : node.MayChoose otherParent) (linked : node.replica.graph.Linked)
    {named : Descriptor} (mem : named ∈ otherParent) :
    (∃ event ∈ node.replica.events, descriptor event = named) ∧
      named.hash ∈ node.replica.graph ∧ ∀ last ∈ node.lastEvent, last.hash ≠ named.hash := by
  rcases choice with rfl | ⟨tip, listed, rfl⟩
  · contradiction
  · obtain ⟨event, held, rfl⟩ := Option.map_eq_some_iff.mp mem
    obtain rfl : hash event = tip := linked.hash_eq held
    refine ⟨⟨event, ⟨_, held⟩, rfl⟩, ShadowGraph.mem_of_event? held, ?_⟩
    intro last own same
    have other := of_decide_eq_true (List.mem_filter.mp listed).2
    rw [own, Option.map_some, same] at other
    exact other rfl

theorem watermark_lt_nextGeneration (room : node.HasRoom) :
    node.replica.watermark < node.nextGeneration otherParent := by
  obtain ⟨⟨above, -⟩, -⟩ := nextGeneration_le_iff.mp (Int64.le_refl _)
  exact Int64.lt_of_lt_of_le (Generation.lt_next room.watermark_lt) above

theorem lt_nextGeneration {named : Descriptor}
    (mem : named ∈ node.lastEvent.toList ++ otherParent.toList)
    (below : named.generation < Int64.maxValue) :
    named.generation < node.nextGeneration otherParent := by
  obtain ⟨-, above⟩ := nextGeneration_le_iff.mp (Int64.le_refl _)
  exact Int64.lt_of_lt_of_le (Generation.lt_next below) (above named mem)

theorem exists_build (room : node.HasRoom) (choice : node.MayChoose otherParent)
    (linked : node.replica.graph.Linked) (now : Timestamp) :
    ∃ event, (node.draft otherParent transactions).build now = .ok event := by
  refine Draft.builds_iff.mpr ⟨?_, ?_⟩
  · intro last own named mem
    obtain ⟨-, -, other⟩ := choice.held linked mem
    exact other last own
  · rintro asked ⟨⟩ named mem
    refine lt_nextGeneration mem ?_
    rcases List.mem_append.mp mem with own | other
    · exact room.last_lt named (Option.mem_toList.mp own)
    · obtain ⟨⟨event, held, rfl⟩, -, -⟩ := choice.held linked (Option.mem_toList.mp other)
      exact room.held_lt event held

variable {created : List Event} {event : Event} {now : Timestamp}

theorem Unextended.hash_ne (unextended : node.Unextended created)
    (injective : Set.InjOn DagEvent.hash {other | other ∈ created ++ [event]})
    (built : (node.draft otherParent transactions).build now = .ok event) :
    ∀ other ∈ created, hash other ≠ hash event := by
  obtain ⟨ours, extending, -⟩ := descent_of_build built
  intro other made same
  have first : other = event :=
    injective (List.mem_append_left _ made) List.mem_concat_self same
  exact unextended other made (first ▸ ours) (first ▸ extending)

theorem Grounded.classify_of_build (grounded : node.Grounded created) (room : node.HasRoom)
    (choice : node.MayChoose otherParent)
    (built : (node.draft otherParent transactions).build now = .ok event)
    (fresh : ∀ other ∈ created, hash other ≠ hash event) :
    node.replica.classify event = .insertable := by
  obtain ⟨settled, parents⟩ := Draft.build_eq_ok built
  have asked : generation event = node.nextGeneration otherParent :=
    Draft.eq_of_settleGeneration rfl settled
  have linked := grounded.valid.linked
  refine classify_eq_insertable.mpr ⟨?_, ?_, ?_⟩
  · intro present
    obtain ⟨other, found⟩ := ShadowGraph.mem_iff_event?.mp present
    exact fresh other (grounded.within ⟨_, found⟩) (linked.hash_eq found)
  · rw [asked]
    exact Int64.not_le.mpr (watermark_lt_nextGeneration room)
  · intro line named declared
    rw [parents line] at declared
    cases line with
    | self =>
      obtain ⟨last, -, rfl, covered⟩ := grounded.own named declared
      exact covered.imp_left Holds.mem
    | other => exact .inl (choice.held linked declared).2.1

/-- How a node goes on by an event that it creates. -/
structure Advances (node : Node) (otherParent : Option Descriptor) (event : Event)
    (after : Node) : Prop where
  selfParent_eq : selfParent event = node.lastEvent
  otherParent_eq : DagEvent.otherParent event = otherParent
  above_watermark : node.replica.watermark < generation event
  above_parents : ∀ line, ∀ named ∈ parent line event, named.generation < generation event
  lastEvent_eq : after.lastEvent = some (descriptor event)
  holds : after.replica.Holds event
  mem_tips : hash event ∈ after.replica.tips
  stats_eq : after.stats = { node.stats with eventsCreated := node.stats.eventsCreated + 1 }

theorem Grounded.advances_extend (grounded : node.Grounded created)
    (built : (node.draft otherParent transactions).build now = .ok event)
    (insertable : node.replica.classify event = .insertable)
    (fresh : ∀ other ∈ created, hash other ≠ hash event) :
    node.Advances otherParent event (node.extend event) := by
  obtain ⟨-, extending, asked⟩ := descent_of_build built
  obtain ⟨settled, parents⟩ := Draft.build_eq_ok built
  obtain ⟨absent, unexpired, -⟩ := classify_eq_insertable.mp insertable
  have loopless : ¬ Names .self event (hash event) := by
    intro names
    obtain ⟨named, self, same⟩ := names_iff.mp names
    obtain ⟨last, made, rfl, -⟩ := grounded.own named (extending.symm.trans self)
    exact fresh last made same
  refine ⟨extending, asked, Int64.not_le.mp unexpired, ?_, rfl,
    holds_addEvent_of_insertable insertable, ?_, rfl⟩
  · intro line named declared
    rw [parents line] at declared
    exact Draft.lt_of_settleGeneration rfl settled named (Draft.mem_parents.mpr ⟨line, declared⟩)
  · obtain ⟨graph, -, added⟩ := addEvent_of_insertable insertable
    have unlisted : hash event ∉ node.replica.tips :=
      fun tip => absent (grounded.valid.mem_of_tip tip)
    change hash event ∈ (node.replica.addEvent event).2.tips
    rw [added]
    exact (mem_tipsAfter grounded.valid.nodup unlisted).mpr ⟨.inr rfl, loopless⟩

theorem eq_of_createEvent_error {clock : Nat → Timestamp} {error : NodeError} {after : Node}
    (failed : node.createEvent clock otherParent transactions = .error error after) :
    after = node := by
  rcases node.createWithin_cases otherParent transactions _ with
    ⟨event, now, -, -, -, succeeded⟩ | ⟨cause, refused⟩
  · cases succeeded.symm.trans failed
  · cases refused.symm.trans failed
    rfl

end Node

namespace Network

variable {created : List Event} {network : Network} {node : Node}

/-- However nodes of distinct creators have come about: with room below the top of the range, and
with no other-parent or one of its own choice, a node creates its event at the first attempt, unless
two events share a hash. With any other-parent, a node that fails is left as it was. -/
theorem createEvent_of_operated (run : Operated created network) (mem : node ∈ network.nodes) :
    (network.creators.toList.Nodup → node.HasRoom → ∀ clock otherParent transactions,
      node.MayChoose otherParent →
      ∃ event, (node.draft otherParent transactions).build (clock 0) = .ok event ∧
        (Set.InjOn DagEvent.hash {other | other ∈ created ++ [event]} → ∃ after,
          node.attempt (clock 0) otherParent transactions = .created event after ∧
          node.createEvent clock otherParent transactions = .ok event after ∧
          node.Advances otherParent event after)) ∧
    (∀ generator, node.MayChoose (node.chooseOtherParent generator).1) ∧
    ∀ clock otherParent transactions error after,
      node.createEvent clock otherParent transactions = .error error after → after = node := by
  obtain ⟨-, grounded⟩ := run.grounded
  have here := grounded node mem
  refine ⟨?_, node.mayChoose_chooseOtherParent, fun _ _ _ _ _ => Node.eq_of_createEvent_error⟩
  intro distinct room clock otherParent transactions choice
  obtain ⟨event, built⟩ := Node.exists_build room choice here.valid.linked (clock 0)
  refine ⟨event, built, fun injective => ⟨node.extend event, ?_⟩⟩
  have before : Set.InjOn DagEvent.hash {event | event ∈ created} :=
    injective.mono fun _ made => List.mem_append_left _ made
  have fresh := (run.unextended before distinct node mem).hash_ne injective built
  have insertable := here.classify_of_build room choice built fresh
  exact ⟨Node.attempt_of_insertable built insertable,
    Node.createEvent_of_insertable built insertable, here.advances_extend built insertable fresh⟩

/-- The first node has swept both of its events, and still it goes on from the last of them. -/
theorem createEvent_of_swept :
    let stirred := left (stir (left (stir quiet)))
    ∃ node event after, stirred.nodes[0]? = some node ∧
      let swept := (node.expireRetaining 0).2
      swept.replica.events = ∅ ∧ swept.createEvent (fun _ => 0) none [] = .ok event after ∧
        swept.Advances none event after := by
  intro stirred
  have computed : stirred.creators.toList.Nodup ∧ stirred.nodes[0]?.any fun node =>
      (node.replica.maxGeneration? = some 1 ∧ node.replica.watermark = Int64.minValue) ∧
      (∀ named ∈ node.lastEvent, named.generation < Int64.maxValue) ∧
      ((Node.draft { node with replica := { watermark := 1 } } none []).build 0).toOption.any
        fun event => ((born (stir quiet) ++ born (stir (left (stir quiet))) ++ [event]).map
          DagEvent.hash).Nodup := by
    decide +kernel
  obtain ⟨distinct, facts⟩ := computed
  obtain ⟨node, found, facts⟩ := (Option.any_eq_true _ _).mp facts
  obtain ⟨⟨highest, low⟩, last, drafted⟩ := of_decide_eq_true facts
  have run := gossiped_stirred.operated
  obtain ⟨rooted, grounded⟩ := run.grounded
  have here := grounded node (Array.mem_of_getElem? found)
  have greatest := maxGeneration?_eq_some.mp highest
  have retains := Node.retains_expireRetaining here.valid 0
  have watermark : (node.expireRetaining 0).2.replica.watermark = 1 := by
    have same := retains.toInt_watermark greatest
    rw [low] at same
    exact Int64.toInt_inj.mp same
  obtain ⟨next, drafted, hashes⟩ := (Option.any_eq_true _ _).mp drafted
  have injective : Set.InjOn DagEvent.hash
      {event | event ∈ born (stir quiet) ++ born (stir (left (stir quiet))) ++ [next]} :=
    fun first firstMem second secondMem =>
      List.inj_on_of_nodup_map (of_decide_eq_true hashes) firstMem secondMem
  have nothing : (node.expireRetaining 0).2.replica.events = ∅ := by
    have sifted := here.expireRetaining_sifted rooted
      (injective.mono fun _ mem => List.mem_append_left _ mem) 0
    refine Set.eq_empty_iff_forall_notMem.mpr ?_
    rintro event ⟨hash, survives⟩
    have filtered := (sifted.event?_eq hash).symm.trans survives
    rw [Option.filter_eq_some_iff, watermark, decide_eq_true_iff] at filtered
    exact Int64.not_le.mpr filtered.2 (greatest.2 ⟨event, ⟨hash, filtered.1⟩, rfl⟩)
  obtain ⟨sameCreator, sameLast⟩ := Prod.mk.inj (node.chain_expireRetaining 0)
  have room : (node.expireRetaining 0).2.HasRoom := by
    refine ⟨?_, ?_, sameLast ▸ last⟩
    · rw [watermark]
      decide
    · rw [nothing]
      exact fun _ mem => mem.elim
  have chains := chains_expire found 0
  obtain ⟨creates, -, -⟩ := createEvent_of_operated (run.expire found 0)
    (Array.mem_of_getElem? (getElem?_setNode found))
  obtain ⟨event, built, succeeds⟩ := creates (creators_eq_of_chains chains ▸ distinct) room
    (fun _ => 0) none [] (.inl rfl)
  have same : (node.expireRetaining 0).2.draft none [] =
      Node.draft { node with replica := { watermark := 1 } } none [] := by
    simp only [Node.draft, Node.nextGeneration, sameCreator, sameLast, watermark]
  rw [same] at built
  rw [built] at drafted
  obtain rfl : event = next := Option.some.inj drafted
  obtain ⟨after, -, created, advances⟩ := succeeds injective
  exact ⟨node, event, after, found, nothing, created, advances⟩

end Network
end Hashgraph
