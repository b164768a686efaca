import Hashgraph.Proofs.Exchange.Encounter
import Hashgraph.Proofs.Exchange.Pursuit

/-! The form of a send list, against any peer and whatever the replica goes through in the session:
distinct events that were held, in the order of their generations, parents first. A receiver can
take such a list in order even if the peer has made up all that it said. -/

namespace Hashgraph

open DagEvent ShadowGraph Replica

variable {ε : Type} [DagEvent ε]

section Sorting

theorem filter_mergeSort_generation (list : List ε) (level : Generation) :
    (list.mergeSort fun first second => generation first ≤ generation second).filter
        (fun event => generation event = level) =
      list.filter fun event => generation event = level := by
  have same : (list.filter fun event => generation event = level).Pairwise
      fun first second => decide (generation first ≤ generation second) = true := by
    refine List.pairwise_of_forall_mem_list fun first firstMem second secondMem => ?_
    simp only [List.mem_filter, decide_eq_true_eq] at firstMem secondMem
    exact decide_eq_true (Int64.le_of_eq (firstMem.2.trans secondMem.2.symm))
  have kept : (list.filter fun event => generation event = level).Sublist
      (list.mergeSort fun first second => generation first ≤ generation second) :=
    List.sublist_mergeSort generation_le_trans generation_le_total same List.filter_sublist
  have again := kept.filter fun event => generation event = level
  simp only [List.filter_filter, Bool.and_self] at again
  refine (again.eq_of_length ?_).symm
  exact ((List.mergeSort_perm _ _).filter _).length_eq.symm

theorem mem_of_lt_of_pairwise {earlier later : List ε} {middle lower : ε}
    (sorted : (earlier ++ middle :: later).Pairwise fun first second =>
      generation first ≤ generation second)
    (mem : lower ∈ earlier ++ middle :: later) (below : generation lower < generation middle) :
    lower ∈ earlier := by
  rcases List.mem_append.mp mem with first | rest
  · exact first
  · have level : generation middle ≤ generation lower := by
      rcases List.mem_cons.mp rest with rfl | last
      · exact Int64.le_refl _
      · exact (List.pairwise_cons.mp (List.pairwise_append.mp sorted).2.1).1 lower last
    exact (Int64.not_le.mpr below level).elim

end Sorting

namespace Replica

variable {replica : Replica ε} {session : Session ε} {cursor : Option EventHash}

theorem filed_walk (linked : replica.graph.Linked) (filed : session.Filed) :
    (replica.walk session cursor).Filed := by
  fun_induction replica.walk session cursor with
  | case1 | case2 | case3 | case5 => exact filed
  | case4 => exact filed.congr rfl rfl
  | case6 session hash shadow found active unknown fresh ih =>
    exact ih (filed.enqueue (linked.hash_eq (event?_of_get? found)))

theorem sendList_isPrefix_walk : session.sendList <+: (replica.walk session cursor).sendList := by
  fun_induction replica.walk session cursor with
  | case1 | case2 | case3 | case4 | case5 => exact List.prefix_rfl
  | case6 session hash shadow found active unknown fresh ih =>
    refine List.IsPrefix.trans ?_ ih
    rw [Session.enqueue, if_neg fresh]
    exact List.prefix_append _ _

/-- The walks keep list and set in step and queue held events behind those that were queued before. -/
theorem walkAll_kept (linked : replica.graph.Linked) (filed : session.Filed) :
    (replica.walkAll session).Filed ∧ session.sendList <+: (replica.walkAll session).sendList ∧
      ∀ event ∈ (replica.walkAll session).sendList,
        event ∈ session.sendList ∨ replica.Holds event := by
  have walks (tips : List EventHash) : (replica.walkFrom session tips).Filed ∧
      session.sendList <+: (replica.walkFrom session tips).sendList ∧
        ∀ event ∈ (replica.walkFrom session tips).sendList,
          event ∈ session.sendList ∨ replica.Holds event := by
    induction tips using List.reverseRecOn with
    | nil => exact ⟨filed, List.prefix_rfl, fun _ => .inl⟩
    | append_singleton tips tip ih =>
      obtain ⟨sofar, grows, held⟩ := ih
      rw [walkFrom_concat]
      refine ⟨filed_walk linked sofar, grows.trans sendList_isPrefix_walk, fun event mem => ?_⟩
      rcases missing_of_mem_walk linked mem with listed | missing
      · exact held event listed
      · exact .inr missing.holds
  exact walks session.workingTips

end Replica

namespace Encounter

variable {events : Set ε} {fresh : Replica ε} {commands : List (Command ε)} {d : Encounter ε}
  {localName peerName : String} {role : Role}

/-- Whatever the peer says and however the replica is changed meanwhile, the session ends with a list
of distinct events, of which each was held at some moment. The list is the queue, sorted by
generation, and a parent stands before its children. -/
theorem finish_orderly (causal : IsCausal events) (starts : Start events fresh)
    (offers : Offers events commands)
    (steps : Steps (Changes events) (start (fresh.performAll commands) localName peerName role) d)
    (ready : d.session.phase = .booleansExchanged) :
    ∃ sendList after, d.replica.finish d.session = .ok sendList after ∧
      (sendList.map DagEvent.hash).Nodup ∧
      sendList.Pairwise (fun first second => generation first ≤ generation second) ∧
      (d.session.sendList <+: (d.replica.walkAll d.session).sendList ∧
        ∀ level, sendList.filter (fun event => generation event = level) =
          (d.replica.walkAll d.session).sendList.filter fun event => generation event = level) ∧
      (∀ hash, hash ∈ after.queued ↔ ∃ event ∈ sendList, DagEvent.hash event = hash) ∧
      (∀ event ∈ sendList, ∃ state ∈ d.states, event ∈ state.events) ∧
      ∀ earlier child later, sendList = earlier ++ child :: later →
        ∀ older ∈ sendList, ∀ line, Names line child (DagEvent.hash older) → older ∈ earlier := by
  have gathered := steps.gathered causal.isAscending starts offers
  obtain ⟨snapshot, mem, -, learnt⟩ :=
    steps.endures_ready endures_learnt (fun state mem => (gathered state mem).toTracked) ready
  cases learnt with
  | tips phase => cases phase.symm.trans ready
  | answers _ briefed _ answered =>
    have linked := (gathered d.replica List.mem_cons_self).linked
    obtain ⟨filed, grows, held⟩ := walkAll_kept linked
      (briefed.filed.congr answered.sendList answered.queued)
    have perm := List.mergeSort_perm (d.replica.walkAll d.session).sendList
      fun first second => generation first ≤ generation second
    have sorted := pairwise_mergeSort_generation (d.replica.walkAll d.session).sendList
    have wasHeld : ∀ event ∈ (d.replica.walkAll d.session).sendList,
        ∃ state ∈ d.states, state.Holds event := by
      intro event queued
      rcases held event queued with listed | holds
      · rw [answered.sendList, briefed.mem_sendList] at listed
        exact ⟨snapshot, mem, listed.1⟩
      · exact ⟨d.replica, List.mem_cons_self, holds⟩
    refine ⟨_, _, finish_eq_ok.mpr ⟨ready, rfl, rfl⟩, ?_, sorted, ⟨grows, ?_⟩, ?_, ?_, ?_⟩
    · exact (perm.map _).nodup_iff.mpr filed.nodup
    · exact filter_mergeSort_generation _
    · intro hash
      simp only [List.mem_mergeSort]
      exact filed.mem_queued
    · intro event listed
      obtain ⟨state, mem, holds⟩ := wasHeld event (perm.mem_iff.mp listed)
      exact ⟨state, mem, ⟨_, holds⟩⟩
    · intro earlier child later split older listed line names
      have member {event : ε} (listed : event ∈ (d.replica.walkAll d.session).sendList) :
          event ∈ events := by
        obtain ⟨state, mem, holds⟩ := wasHeld event listed
        exact (gathered state mem).mem_events holds
      have childListed := perm.mem_iff.mp (split ▸ List.mem_append_right _ List.mem_cons_self)
      have below := causal (member childListed) (member (perm.mem_iff.mp listed)) names
      exact mem_of_lt_of_pairwise (split ▸ sorted) (split ▸ listed) below

/-- The peer repeats a tip and makes another up; before it answers, the replica is cleared and takes
one of its events in again. -/
theorem finish_orderly_cleared :
    let filling : List (Command Outline) := forkedOutlines.map .add
    ∃ d : Encounter Outline, IsCausal {event | event ∈ forkedOutlines} ∧
      Start {event | event ∈ forkedOutlines} ∅ ∧ Offers {event | event ∈ forkedOutlines} filling ∧
      Steps (Changes {event | event ∈ forkedOutlines})
        (start ((∅ : Replica Outline).performAll filling) "ann" "bob" .listener) d ∧
      d.session.phase = .booleansExchanged ∧
      d.replica = ((((∅ : Replica Outline).performAll filling).perform .clear).perform
        (.add (forkedOutline 1))) ∧
      ∃ sendList after, d.replica.finish d.session = .ok sendList after ∧
        (sendList.map DagEvent.hash).Nodup ∧
        sendList.Pairwise (fun first second => generation first ≤ generation second) ∧
        ∀ event ∈ sendList, ∃ state ∈ d.states, event ∈ state.events := by
  intro filling
  have history : IsHistory {event | event ∈ forkedOutlines} := by decide +kernel
  have causal : IsCausal {event | event ∈ forkedOutlines} := history.isCausal
  have offers : Offers {event | event ∈ forkedOutlines} filling := by
    simp [Offers, filling]
  have gathered : Gathered {event | event ∈ forkedOutlines} _ :=
    Gathered.empty.performAll causal.isAscending offers
  have fits : ((∅ : Replica Outline).performAll filling).tips.length = [true, false, true].length := by
    decide +kernel
  have cleared : Changes {event | event ∈ forkedOutlines}
      ((∅ : Replica Outline).performAll filling) _ := ⟨.clear, fun _ add => by contradiction, rfl⟩
  have refilled : Changes {event | event ∈ forkedOutlines}
      (((∅ : Replica Outline).performAll filling).perform .clear) _ := ⟨.add (forkedOutline 1),
    fun event added => Command.add.inj added ▸ forkedOutline_mem 1, rfl⟩
  obtain ⟨d, -, steps, ready, replica, -⟩ := exists_ready "ann" "bob" .listener
    [.filled 1, .filled 1, .filled 9] fits .refl
    ((Relation.ReflTransGen.single cleared).tail refilled) gathered.toTracked
  obtain ⟨sendList, after, finished, nodup, sorted, -, -, held, -⟩ :=
    finish_orderly causal .empty offers steps ready
  exact ⟨d, causal, .empty, offers, steps, ready, replica, sendList, after, finished, nodup, sorted,
    held⟩

end Encounter
end Hashgraph
