import Hashgraph.Proofs.Exchange.Encounter
import Hashgraph.Proofs.Exchange.Walk
import Hashgraph.Proofs.Replica.Delivery

/-! What a session forgets while it searches. A walk that ends at an event which the peer has puts
its own mark there, in the place of the mark by which the peer was known to have it. Later walks
then no longer see that the ancestors of that event are known as well. -/

namespace Hashgraph

open DagEvent ShadowGraph Replica

variable {ε : Type} [DagEvent ε]

namespace Replica

variable {replica : Replica ε} {session : Session ε} {hash : EventHash} {event : ε}

section Walks

theorem missing_of_mem_walkFrom (linked : replica.graph.Linked) {tips : List EventHash}
    (mem : event ∈ (replica.walkFrom session tips).sendList) (new : event ∉ session.sendList) :
    ∃ earlier tip later, tips = earlier ++ tip :: later ∧
      replica.Missing (replica.walkFrom session earlier) (some tip) event := by
  induction tips using List.reverseRecOn with
  | nil => exact (new mem).elim
  | append_singleton tips tip ih =>
    rw [walkFrom_concat] at mem
    rcases missing_of_mem_walk linked mem with listed | missing
    · obtain ⟨earlier, first, later, rfl, missing⟩ := ih listed
      exact ⟨earlier, first, later ++ [tip], List.append_assoc .., missing⟩
    · exact ⟨tips, tip, [], rfl, missing⟩

/-- The walks leave a mark as it was, or put their own in its place on one of their chains. -/
theorem walkFrom_marks (replica : Replica ε) (session : Session ε) (tips : List EventHash)
    (hash : EventHash) :
    (replica.walkFrom session tips).marks[hash]? = session.marks[hash]? ∨
      (replica.walkFrom session tips).marks[hash]? = some .search ∧
        ∃ tip ∈ tips, replica.graph.OnChain (some tip) hash := by
  induction tips using List.reverseRecOn with
  | nil => exact .inl rfl
  | append_singleton tips tip ih =>
    have among : (∃ first ∈ tips, replica.graph.OnChain (some first) hash) →
        ∃ first ∈ tips ++ [tip], replica.graph.OnChain (some first) hash :=
      fun ⟨first, mem, onChain⟩ => ⟨first, List.mem_append_left _ mem, onChain⟩
    rw [walkFrom_concat]
    rcases replica.walk_marks (replica.walkFrom session tips) (some tip) with
      same | ⟨last, onChain, -, marks⟩
    · rw [same]
      exact ih.imp_right (And.imp_right among)
    · rw [marks, Std.ExtTreeMap.getElem?_insert]
      split
      · rename_i here
        rw [Std.LawfulEqCmp.compare_eq_iff_eq] at here
        exact .inr ⟨rfl, tip, List.mem_concat_self, here ▸ onChain⟩
      · exact ih.imp_right (And.imp_right among)

/-- What the peer is known to have and the walks list all the same, they have forgotten: an earlier
one put its own mark in the place of that by which it was known. -/
theorem forgotten_of_mem_walkFrom (linked : replica.graph.Linked) {tips : List EventHash}
    (mem : event ∈ (replica.walkFrom session tips).sendList) (new : event ∉ session.sendList)
    {shown : EventHash}
    (path : Relation.ReflTransGen replica.graph.Begets (DagEvent.hash event) shown)
    (marked : session.marks[shown]? = some .peerHas) :
    ∃ earlier tip later, tips = earlier ++ tip :: later ∧
      replica.graph.OnChain (some tip) (DagEvent.hash event) ∧
      (∃ other ∈ earlier, replica.graph.OnChain (some other) shown) ∧
      (replica.walkFrom session tips).marks[shown]? = some .search := by
  obtain ⟨earlier, tip, later, rfl, missing⟩ := missing_of_mem_walkFrom linked mem new
  -- the event was not known when its walk began, so the mark was lost before
  have unmarked : (replica.walkFrom session earlier).marks[shown]? ≠ some .peerHas :=
    fun still => missing.unknown ((isKnownToPeer_iff linked).mpr ⟨shown, path, still⟩)
  have searched := (replica.walkFrom_marks session earlier shown).resolve_left fun same =>
    unmarked (same.trans marked)
  refine ⟨earlier, tip, later, rfl, missing.onChain, searched.2, ?_⟩
  have last := replica.walkFrom_marks (replica.walkFrom session earlier) (tip :: later) shown
  have joined : replica.walkFrom session (earlier ++ tip :: later) =
      replica.walkFrom (replica.walkFrom session earlier) (tip :: later) := List.foldl_append
  rw [joined]
  exact last.elim (·.trans searched.1) And.left

theorem marked_of_childless (linked : replica.graph.Linked)
    (childless : ∀ child, ¬ replica.graph.Begets hash child)
    (known : replica.isKnownToPeer session hash) : session.marks[hash]? = some .peerHas := by
  obtain ⟨shown, path, marked⟩ := (isKnownToPeer_iff linked).mp known
  rcases path.cases_head with rfl | ⟨child, begets, -⟩
  · exact marked
  · exact (childless child begets).elim

theorem not_isKnownToPeer_of_unmarked (linked : replica.graph.Linked)
    (unmarked : ∀ shown : EventHash, session.marks[shown]? ≠ some .peerHas) :
    ¬ replica.isKnownToPeer session hash := by
  rw [isKnownToPeer_iff linked]
  rintro ⟨shown, -, marked⟩
  exact unmarked shown marked

omit [DagEvent ε] in
theorem mem_queued_enqueue {other : EventHash} {added : ε} :
    other ∈ (session.enqueue hash added).queued ↔ other = hash ∨ other ∈ session.queued := by
  unfold Session.enqueue
  split
  · rename_i queued
    exact (or_iff_right_of_imp fun same => same ▸ queued).symm
  · rw [Std.ExtTreeSet.mem_insert, Std.LawfulEqCmp.compare_eq_iff_eq, eq_comm]

theorem active_iff {shadow : Shadow ε} :
    ¬ (session.isMarked .search hash || shadow.isExpired replica.watermark) ↔
      session.marks[hash]? ≠ some .search ∧ ¬ generation shadow.event ≤ replica.watermark := by
  rw [Bool.or_eq_true, not_or, Session.isMarked_iff, Shadow.isExpired, decide_eq_true_iff]
  rfl

/-- A walk goes on past an event that is not known to the peer, and lists it. -/
theorem walk_of_unknown (found : replica.graph.event? hash = some event)
    (unsearched : session.marks[hash]? ≠ some .search)
    (unexpired : ¬ generation event ≤ replica.watermark)
    (unknown : ¬ replica.isKnownToPeer session hash) (fresh : hash ∉ session.queued) :
    replica.walk session (some hash) = replica.walk (session.enqueue hash event)
      ((selfParent event).map Descriptor.hash) := by
  obtain ⟨shadow, held, rfl⟩ := exists_shadow found
  rw [walk_held held, if_neg (active_iff.mpr ⟨unsearched, unexpired⟩), if_neg unknown, if_neg fresh]
  rfl

/-- A walk ends at an event that is known to the peer, and marks it. -/
theorem walk_of_known (found : replica.graph.event? hash = some event)
    (unsearched : session.marks[hash]? ≠ some .search)
    (unexpired : ¬ generation event ≤ replica.watermark)
    (known : replica.isKnownToPeer session hash) :
    replica.walk session (some hash) = session.setMark .search hash := by
  obtain ⟨shadow, held, rfl⟩ := exists_shadow found
  rw [walk_held held, if_neg (active_iff.mpr ⟨unsearched, unexpired⟩), if_pos known]

end Walks

end Replica

namespace Encounter

variable {events : Set ε} {fresh : Replica ε} {commands : List (Command ε)} {d : Encounter ε}
  {localName peerName : String} {role : Role}

/-- Whatever the peer says and however the replica is changed meanwhile: if an event is added in the
last phase though the peer was known to have it or a descendant, then the mark on the latter has been
lost to a walk from an earlier tip. -/
theorem forgotten_of_mem_finish (ascending : IsAscending events) (starts : Start events fresh)
    (offers : Offers events commands)
    (steps : Steps (Changes events) (start (fresh.performAll commands) localName peerName role) d)
    (ready : d.session.phase = .booleansExchanged) :
    ∃ sendList after, d.replica.finish d.session = .ok sendList after ∧
      ∀ event ∈ sendList, event ∉ d.session.sendList → ∀ shown,
        Relation.ReflTransGen d.replica.graph.Begets (DagEvent.hash event) shown →
        d.session.marks[shown]? = some .peerHas →
        ∃ earlier tip later, d.session.workingTips = earlier ++ tip :: later ∧
          d.replica.graph.OnChain (some tip) (DagEvent.hash event) ∧
          (∃ other ∈ earlier, d.replica.graph.OnChain (some other) shown) ∧
          after.marks[shown]? = some .search := by
  have gathered := steps.gathered ascending starts offers
  refine ⟨_, _, finish_eq_ok.mpr ⟨ready, rfl, rfl⟩, ?_⟩
  intro event sent new shown path marked
  exact forgotten_of_mem_walkFrom (gathered d.replica List.mem_cons_self).linked
    (List.mem_mergeSort.mp sent) new path marked

/-- Two events, of which the second names the first as other-parent, and a self-child of each. -/
def crossedOutlines : List Outline :=
  [⟨.filled 1, 0, none, none⟩,
    ⟨.filled 2, 1, none, some ⟨.filled 1, 0⟩⟩,
    ⟨.filled 3, 2, some ⟨.filled 2, 1⟩, none⟩,
    ⟨.filled 4, 1, some ⟨.filled 1, 0⟩, none⟩]

def crossedOutline (place : Fin 4) : Outline := crossedOutlines.get place

theorem crossedOutline_mem (place : Fin 4) :
    crossedOutline place ∈ {event | event ∈ crossedOutlines} :=
  List.get_mem crossedOutlines place

def crossedCommands : List (Command Outline) := (crossedOutlines.take 2).map .add

def crossed : Replica Outline := (∅ : Replica Outline).performAll crossedCommands

def crossedLater : Replica Outline := crossed.performAll ((crossedOutlines.drop 2).map .add)

theorem isHistory_crossed : IsHistory {event | event ∈ crossedOutlines} := by decide +kernel

theorem offers_crossed : Offers {event | event ∈ crossedOutlines} crossedCommands := by
  intro event mem
  obtain ⟨other, first, added⟩ := List.mem_map.mp mem
  exact Command.add.inj added ▸ List.mem_of_mem_take first

theorem coherent_crossedLater :
    Coherent {event | event ∈ crossedOutlines} crossedLater := by
  have added (place : Fin 4) {replica : Replica Outline}
      (coherent : Coherent {event | event ∈ crossedOutlines} replica) :
      Coherent {event | event ∈ crossedOutlines} (replica.perform (.add (crossedOutline place))) :=
    coherent.addEvent isHistory_crossed (crossedOutline_mem place)
  exact added 3 (added 2 (added 1 (added 0 .empty)))

theorem crossedLater_holds : ∀ place : Fin 4,
    crossedLater.graph.event? (hash (crossedOutline place)) = some (crossedOutline place) ∧
      ¬ generation (crossedOutline place) ≤ crossedLater.watermark := by decide +kernel

/-- A session of this replica that knows of the second event alone and has listed nothing. -/
structure Crossing (session : Session Outline) : Prop where
  workingTips : session.workingTips = [.filled 3, .filled 4]
  sendList : session.sendList = []
  queued : ∀ hash, hash ∉ session.queued
  marks : ∀ hash : EventHash,
    session.marks[hash]? = if hash = .filled 2 then some .peerHas else none

namespace Crossing

variable {session : Session Outline}

theorem walk_eq (crossing : Crossing session) : crossedLater.walk session (some (.filled 3)) =
    (session.enqueue (.filled 3) (crossedOutline 2)).setMark .search (.filled 2) := by
  have linked := coherent_crossedLater.linked
  have childless (child : EventHash) : ¬ crossedLater.graph.Begets (.filled 3) child := by
    rintro ⟨line, recorded⟩
    obtain ⟨event, found, names⟩ := linked.child_names recorded
    have unnamed : ∀ event ∈ crossedOutlines,
        ¬ Names .self event (.filled 3) ∧ ¬ Names .other event (.filled 3) := by decide
    have absent := unnamed event (coherent_crossedLater.mem_events found)
    cases line with
    | self => exact absent.1 names
    | other => exact absent.2 names
  have unknown : ¬ crossedLater.isKnownToPeer session (.filled 3) := fun known => by
    have marked := marked_of_childless linked childless known
    rw [crossing.marks] at marked
    exact absurd marked (by decide)
  have known : crossedLater.isKnownToPeer (session.enqueue (.filled 3) (crossedOutline 2))
      (.filled 2) := by
    refine (isKnownToPeer_iff linked).mpr ⟨.filled 2, .refl, ?_⟩
    rw [Session.enqueue_marks, crossing.marks]
    rfl
  calc crossedLater.walk session (some (.filled 3))
    _ = crossedLater.walk (session.enqueue (.filled 3) (crossedOutline 2)) (some (.filled 2)) :=
      walk_of_unknown (crossedLater_holds 2).1 (by rw [crossing.marks]; decide)
        (crossedLater_holds 2).2 unknown (crossing.queued _)
    _ = (session.enqueue (.filled 3) (crossedOutline 2)).setMark .search (.filled 2) :=
      walk_of_known (crossedLater_holds 1).1
        (by rw [Session.enqueue_marks, crossing.marks]; decide) (crossedLater_holds 1).2 known

/-- The second walk no longer sees that the first event is known, and lists it. -/
theorem mem_walkAll (crossing : Crossing session) :
    crossedOutline 0 ∈ (crossedLater.walkAll session).sendList := by
  have walks : crossedLater.walkAll session = crossedLater.walk
      (crossedLater.walk session (some (.filled 3))) (some (.filled 4)) := by
    rw [walkAll, crossing.workingTips]
    rfl
  rw [walks, crossing.walk_eq]
  generalize next : (session.enqueue (.filled 3) (crossedOutline 2)).setMark .search (.filled 2) =
    session'
  have marks (hash : EventHash) : session'.marks[hash]? =
      if hash = .filled 2 then some .search else none := by
    rw [← next, Session.getElem?_marks_setMark, Session.enqueue_marks, crossing.marks]
    split <;> simp_all [eq_comm]
  have unknown {later : Session Outline} (same : later.marks = session'.marks) {hash : EventHash} :
      ¬ crossedLater.isKnownToPeer later hash := by
    refine not_isKnownToPeer_of_unmarked coherent_crossedLater.linked fun shown => ?_
    rw [same, marks]
    split <;> exact fun marked => by contradiction
  have queued (hash : EventHash) : hash ∈ session'.queued ↔ hash = .filled 3 := by
    rw [← next, Session.setMark_queued, mem_queued_enqueue, or_iff_left (crossing.queued hash)]
  have fresh : .filled 1 ∉ (session'.enqueue (.filled 4) (crossedOutline 3)).queued := by
    rw [mem_queued_enqueue, queued]
    decide
  have second : crossedLater.walk session' (some (.filled 4)) = crossedLater.walk
      ((session'.enqueue (.filled 4) (crossedOutline 3)).enqueue (.filled 1) (crossedOutline 0))
      none := calc crossedLater.walk session' (some (.filled 4))
    _ = crossedLater.walk (session'.enqueue (.filled 4) (crossedOutline 3)) (some (.filled 1)) :=
      walk_of_unknown (crossedLater_holds 3).1 (by rw [marks]; decide) (crossedLater_holds 3).2
        (unknown rfl) (by rw [queued]; decide)
    _ = _ :=
      walk_of_unknown (crossedLater_holds 0).1 (by rw [Session.enqueue_marks, marks]; decide)
        (crossedLater_holds 0).2 (unknown Session.enqueue_marks) fresh
  rw [second]
  refine mem_walk_of_mem ?_
  rw [Session.enqueue, if_neg fresh]
  exact List.mem_concat_self

theorem mem_finish (crossing : Crossing session) {sendList : List Outline}
    {after : Session Outline} (finished : crossedLater.finish session = .ok sendList after) :
    crossedOutline 0 ∈ sendList ∧ crossedOutline 0 ∉ session.sendList := by
  obtain ⟨-, rfl, -⟩ := finish_eq_ok.mp finished
  exact ⟨List.mem_mergeSort.mpr crossing.mem_walkAll, crossing.sendList ▸ List.not_mem_nil⟩

theorem marked (crossing : Crossing session) :
    session.marks[EventHash.filled 2]? = some .peerHas := by
  rw [crossing.marks]
  rfl

end Crossing

theorem exists_crossing : ∃ d : Encounter Outline,
    Steps (Adds {event | event ∈ crossedOutlines}) (start crossed "ann" "bob" .caller) d ∧
      d.session.phase = .booleansExchanged ∧ d.replica = crossedLater ∧ Crossing d.session := by
  have tips : crossed.tips = [.filled 1, .filled 2] ∧
      crossedLater.tips = [.filled 3, .filled 4] := by decide +kernel
  have extending : Relation.ReflTransGen (Adds {event | event ∈ crossedOutlines}) crossed
      crossedLater :=
    .tail (.single ⟨_, crossedOutline_mem 2, rfl⟩) ⟨_, crossedOutline_mem 3, rfl⟩
  have fits : crossed.tips.length = [false, true].length := by
    rw [tips.1]
    rfl
  obtain ⟨d, briefed, steps, ready, replica, -, -, listed, answered⟩ :=
    exists_ready "ann" "bob" .caller [] fits extending .refl coherent_crossedLater.toTracked
  have affirmed (hash : EventHash) : crossedLater.affirms (crossed.tips.zip [false, true]) hash ↔
      hash = .filled 2 := by
    rw [affirms_iff, tips.1]
    simp only [List.zip_cons_cons, List.zip_nil_left, List.mem_cons, Prod.mk.injEq, reduceCtorEq,
      and_false, and_true, List.not_mem_nil, or_false, false_or, and_iff_left_iff_imp]
    rintro rfl
    exact mem_of_event? (crossedLater_holds 1).1
  have unlisted : briefed.sendList = [] := listed.sendList_eq_nil
  refine ⟨d, steps, ready, replica, ?_, ?_, ?_, ?_⟩
  · have all : crossedLater.tips.filter (fun tip => !crossedLater.graph.settledBy [] tip) =
        crossedLater.tips := List.filter_eq_self.mpr fun _ _ => rfl
    rw [answered.workingTips, listed.workingTips, all, tips.2, List.filter_eq_self]
    intro tip mem
    rw [Bool.not_eq_true', ← Bool.not_eq_true, affirmed]
    rintro rfl
    revert mem
    decide
  · rw [answered.sendList, unlisted]
  · intro hash queued
    rw [answered.queued, listed.filed.mem_queued, unlisted] at queued
    obtain ⟨event, none, -⟩ := queued
    exact List.not_mem_nil none
  · intro hash
    rw [answered.marks, listed.marks]
    simp only [affirmed, List.not_mem_nil, false_and, if_false]

theorem begets_crossedLater : crossedLater.graph.Begets (.filled 1) (.filled 2) := by
  refine ⟨.other, coherent_crossedLater.records (crossedLater_holds 1).1 (by decide) ?_⟩
  exact mem_of_event? (crossedLater_holds 0).1

/-- An event is sent whose child the peer was known to have. -/
theorem not_omitted_crossed : ¬ ∀ d : Encounter Outline,
    Steps (Adds {event | event ∈ crossedOutlines}) (start crossed "ann" "bob" .caller) d →
    d.session.phase = .booleansExchanged → ∀ sendList after,
    d.replica.finish d.session = .ok sendList after →
    ∀ event ∈ sendList, event ∉ d.session.sendList → ∀ shown,
    Relation.ReflTransGen d.replica.graph.Begets (DagEvent.hash event) shown →
    d.session.marks[shown]? ≠ some .peerHas := by
  intro omits
  obtain ⟨d, steps, ready, replica, crossing⟩ := exists_crossing
  obtain ⟨sendList, after, finished⟩ := d.replica.exists_finish ready
  obtain ⟨sent, new⟩ := crossing.mem_finish (replica ▸ finished)
  exact omits d steps ready sendList after finished _ sent new (.filled 2)
    (replica ▸ .single begets_crossedLater) crossing.marked

/-- The mark was on the chain of the tip from which the first walk started. -/
theorem forgotten_of_mem_finish_crossed : ∃ (d : Encounter Outline) (sendList : List Outline)
    (after : Session Outline),
    Steps (Changes {event | event ∈ crossedOutlines})
      (start ((∅ : Replica Outline).performAll crossedCommands) "ann" "bob" .caller) d ∧
    d.session.phase = .booleansExchanged ∧ d.replica.finish d.session = .ok sendList after ∧
    crossedOutline 0 ∈ sendList ∧ d.session.marks[EventHash.filled 2]? = some .peerHas ∧
    after.marks[EventHash.filled 2]? = some .search := by
  obtain ⟨d, adds, ready, replica, crossing⟩ := exists_crossing
  have steps : Steps (Changes {event | event ∈ crossedOutlines}) _ d :=
    Relation.ReflTransGen.mono (fun _ _ step => step.mono Adds.changes) _ _ adds
  obtain ⟨sendList, after, finished, forgotten⟩ := forgotten_of_mem_finish
    isHistory_crossed.isAscending .empty offers_crossed steps ready
  obtain ⟨sent, new⟩ := crossing.mem_finish (replica ▸ finished)
  obtain ⟨earlier, tip, later, -, -, -, overwritten⟩ := forgotten _ sent new _
    (replica ▸ .single begets_crossedLater) crossing.marked
  exact ⟨d, sendList, after, steps, ready, finished, sent, crossing.marked, overwritten⟩

end Encounter
end Hashgraph
