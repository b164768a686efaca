import Hashgraph.Proofs.Replica.Agreement
import Hashgraph.Proofs.Replica.Delivery

/-! Delivery in any order. Events are offered in passes, and those that wait for a parent are
offered again, until a pass accepts nothing. Every other pass leaves fewer events to offer. What is
held in the end does not depend on the order: it is what the replica held before, and the unexpired
events whose unexpired parents are held in the end. -/

namespace Hashgraph

open DagEvent ShadowGraph

variable {ε : Type} [DagEvent ε] {events : Set ε} {replica start current : Replica ε} {event : ε}
  {offered pending : List ε}

namespace Replica

/-- The events that one pass turns away because a parent is missing. -/
def waiting (replica : Replica ε) (offered : List ε) : List ε :=
  ((offered.zip (replica.addEvents offered).1).filter fun offer => offer.2.isRetryable).map Prod.fst

theorem waiting_cons : replica.waiting (event :: offered) =
    if (replica.classify event).isRetryable then event :: (replica.addEvent event).2.waiting offered
    else (replica.addEvent event).2.waiting offered := by
  rw [waiting, addEvents_cons, List.zip_cons_cons, List.filter_cons, addEvent_fst]
  split <;> rfl

theorem waiting_subset : ∀ event ∈ replica.waiting offered, event ∈ offered := by
  intro event mem
  obtain ⟨⟨_, status⟩, listed, rfl⟩ := List.mem_map.mp mem
  exact (List.of_mem_zip (List.mem_filter.mp listed).1).1

theorem length_waiting_lt (accepts : .insertable ∈ (replica.addEvents offered).1) :
    (replica.waiting offered).length < offered.length := by
  have sized : (replica.addEvents offered).1.length = offered.length := length_addEvents
  have zipped : ((offered.zip (replica.addEvents offered).1).map Prod.snd) =
      (replica.addEvents offered).1 := List.map_snd_zip (Nat.le_of_eq sized)
  rw [← zipped] at accepts
  obtain ⟨offer, listed, insertable⟩ := List.mem_map.mp accepts
  have fewer : ((offered.zip (replica.addEvents offered).1).filter
        fun offer => offer.2.isRetryable).length <
      (offered.zip (replica.addEvents offered).1).length := by
    rw [List.length_filter_lt_length_iff_exists]
    exact ⟨offer, listed, by simp [insertable, IntakeStatus.isRetryable]⟩
  rw [waiting, List.length_map]
  exact Nat.lt_of_lt_of_le fewer (by simp)

/-- Puts the events of each pass in some order. -/
structure Arrangement (ε : Type) where
  arrange : Nat → List ε → List ε
  perm : ∀ pass offered, (arrange pass offered).Perm offered

/-- Offers events in passes until one accepts nothing, and answers how many passes there were. -/
def deliver (arrangement : Arrangement ε) (pass : Nat) (replica : Replica ε) (offered : List ε) :
    Nat × Replica ε :=
  let arranged := arrangement.arrange pass offered
  let after := (replica.addEvents arranged).2
  if _accepts : .insertable ∈ (replica.addEvents arranged).1 then
    deliver arrangement (pass + 1) after (replica.waiting arranged)
  else (pass + 1, after)
termination_by offered.length
decreasing_by
  rw [← (arrangement.perm pass offered).length_eq]
  exact length_waiting_lt _accepts

/-- The hashes that a replica holds in the end, if it is offered these events long enough. -/
inductive Arrives (replica : Replica ε) (offered : List ε) : EventHash → Prop
  | held {hash : EventHash} (held : hash ∈ replica.graph) : Arrives replica offered hash
  | offered {event : ε} (mem : event ∈ offered) (unexpired : ¬ generation event ≤ replica.watermark)
    (parents : ∀ (line : Line) (descriptor : Descriptor), parent line event = some descriptor →
      ¬ descriptor.generation ≤ replica.watermark → Arrives replica offered descriptor.hash) :
    Arrives replica offered (hash event)

theorem Covers.not_insertable (covered : replica.Covers event) :
    replica.classify event ≠ .insertable := by
  intro insertable
  obtain ⟨absent, unexpired, -⟩ := classify_eq_insertable.mp insertable
  rcases covered with held | expired
  · exact absent held.mem
  · exact unexpired expired

theorem addEvents_of_refused (refused : .insertable ∉ (replica.addEvents offered).1) :
    (replica.addEvents offered).2 = replica ∧
      ∀ event ∈ offered, replica.classify event ≠ .insertable := by
  induction offered with
  | nil => exact ⟨rfl, fun event mem => (List.not_mem_nil mem).elim⟩
  | cons event rest ih =>
    rw [addEvents_cons, List.mem_cons, not_or, addEvent_fst] at refused
    have first : replica.classify event ≠ .insertable := fun same => refused.1 same.symm
    rw [addEvent_of_refused first] at refused
    obtain ⟨same, others⟩ := ih refused.2
    refine ⟨?_, List.forall_mem_cons.mpr ⟨first, others⟩⟩
    rw [addEvents_cons, addEvent_of_refused first]
    exact same

theorem isRetryable_classify (absent : hash event ∉ replica.graph)
    (unexpired : ¬ generation event ≤ replica.watermark) (unsettled : ¬ replica.Settles event) :
    (replica.classify event).isRetryable = true := by
  have unheld : ¬ replica.graph.contains (hash event) = true := absent
  have current : ¬ replica.isExpired (generation event) = true := by
    simpa [isExpired] using unexpired
  rw [settles_iff, not_and_or, Bool.not_eq_false, Bool.not_eq_false] at unsettled
  rw [classify, if_neg unheld, if_neg current]
  split
  · rfl
  · rename_i known
    rw [if_pos (unsettled.resolve_left known)]
    rfl

namespace Coherent

theorem waits_or_covers (coherent : Coherent events replica) (history : IsHistory events)
    (mem : ∀ event ∈ offered, event ∈ events) :
    ∀ event ∈ offered, event ∈ replica.waiting offered ∨
      (replica.addEvents offered).2.Covers event := by
  induction offered generalizing replica with
  | nil => exact fun event mem => (List.not_mem_nil mem).elim
  | cons first rest ih =>
    obtain ⟨firstMem, restMem⟩ := List.forall_mem_cons.mp mem
    rw [waiting_cons, addEvents_cons, List.forall_mem_cons]
    constructor
    · by_cases settles : replica.Settles first
      · exact .inr (coherent.covers_addEvent history firstMem settles).addEvents
      · by_cases covered : replica.Covers first
        · have after : (replica.addEvents (first :: rest)).2.Covers first := covered.addEvents
          exact .inr after
        · obtain ⟨unheld, unexpired⟩ := not_or.mp covered
          have absent : hash first ∉ replica.graph :=
            fun held => unheld (coherent.holds_of_mem history firstMem held)
          rw [if_pos (isRetryable_classify absent unexpired settles)]
          exact .inl List.mem_cons_self
    · intro event listed
      refine (ih (coherent.addEvent history firstMem) restMem event listed).imp_left fun waits => ?_
      split
      · exact List.mem_cons_of_mem _ waits
      · exact waits

end Coherent

/-- How far a delivery has come: the events still to be offered, and the replica so far. -/
structure Delivering (events : Set ε) (start : Replica ε) (offered pending : List ε)
    (current : Replica ε) : Prop where
  coherent : Coherent events current
  watermark_eq : current.watermark = start.watermark
  grows : ∀ {event : ε}, start.Holds event → current.Holds event
  arrives : ∀ hash ∈ current.graph, Arrives start offered hash
  pending_subset : ∀ event ∈ pending, event ∈ offered
  decided : ∀ event ∈ offered, event ∈ pending ∨ current.Covers event

theorem arrives_addEvents (level : current.watermark = start.watermark)
    (arrives : ∀ hash ∈ current.graph, Arrives start offered hash)
    (subset : ∀ event ∈ pending, event ∈ offered) :
    ∀ hash ∈ (current.addEvents pending).2.graph, Arrives start offered hash := by
  induction pending generalizing current with
  | nil => exact arrives
  | cons event rest ih =>
    obtain ⟨listed, others⟩ := List.forall_mem_cons.mp subset
    rw [addEvents_cons]
    refine ih (by rwa [addEvent_watermark]) ?_ others
    by_cases insertable : current.classify event = .insertable
    · obtain ⟨-, unexpired, settles⟩ := classify_eq_insertable.mp insertable
      obtain ⟨graph, inserted, added⟩ := addEvent_of_insertable insertable
      rw [level] at unexpired
      rw [added]
      intro other held
      rcases (mem_insert inserted).mp held with rfl | earlier
      · refine .offered listed unexpired fun line descriptor named above => ?_
        rcases settles line descriptor named with parentHeld | expired
        · exact arrives _ parentHeld
        · exact (above (level ▸ expired)).elim
      · exact arrives other earlier
    · rw [addEvent_of_refused insertable]
      exact arrives

namespace Delivering

theorem refl (coherent : Coherent events replica) :
    Delivering events replica offered offered replica where
  coherent := coherent
  watermark_eq := rfl
  grows held := held
  arrives _ held := .held held
  pending_subset _ mem := mem
  decided _ mem := .inl mem

variable (delivering : Delivering events start offered pending current)
include delivering

theorem pass (history : IsHistory events) (mem : ∀ event ∈ offered, event ∈ events)
    {arranged : List ε} (perm : arranged.Perm pending) :
    Delivering events start offered (current.waiting arranged) (current.addEvents arranged).2 := by
  have listed : ∀ event ∈ arranged, event ∈ offered :=
    fun event found => delivering.pending_subset event (perm.mem_iff.mp found)
  have inHistory : ∀ event ∈ arranged, event ∈ events :=
    fun event found => mem event (listed event found)
  constructor
  · exact (Steps.addEvents inHistory).coherent delivering.coherent history
  · rw [addEvents_watermark, delivering.watermark_eq]
  · exact fun held => (delivering.grows held).addEvents
  · exact arrives_addEvents delivering.watermark_eq delivering.arrives listed
  · exact fun event found => listed event (waiting_subset event found)
  · intro event found
    rcases delivering.decided event found with waits | covered
    · exact delivering.coherent.waits_or_covers history inHistory event (perm.mem_iff.mpr waits)
    · exact .inr covered.addEvents

/-- All passes. In the end no offered event is insertable, and each pass but the last has taken
away at least one of those to be offered. -/
theorem deliver (history : IsHistory events) (mem : ∀ event ∈ offered, event ∈ events)
    (arrangement : Arrangement ε) (pass : Nat) :
    (∃ rest, Delivering events start offered rest (current.deliver arrangement pass pending).2) ∧
      (∀ event ∈ offered,
        (current.deliver arrangement pass pending).2.classify event ≠ .insertable) ∧
      (current.deliver arrangement pass pending).1 ≤ pass + pending.length + 1 := by
  fun_induction current.deliver arrangement pass pending with
  | case1 pass current pending arranged after accepts ih =>
    have perm : arranged.Perm pending := arrangement.perm pass pending
    obtain ⟨progress, exhausted, bound⟩ := ih (delivering.pass history mem perm)
    have shorter := length_waiting_lt accepts
    rw [perm.length_eq] at shorter
    exact ⟨progress, exhausted, by omega⟩
  | case2 pass current pending arranged after refused =>
    have perm : arranged.Perm pending := arrangement.perm pass pending
    obtain ⟨same, turnedAway⟩ := addEvents_of_refused refused
    refine ⟨⟨_, delivering.pass history mem perm⟩, ?_, by omega⟩
    intro event found
    rw [show after = current from same]
    rcases delivering.decided event found with waits | covered
    · exact turnedAway event (perm.mem_iff.mpr waits)
    · exact covered.not_insertable

theorem mem_iff_arrives (exhausted : ∀ event ∈ offered, current.classify event ≠ .insertable)
    (linked : start.graph.Linked) {hash : EventHash} :
    hash ∈ current.graph ↔ Arrives start offered hash := by
  refine ⟨delivering.arrives hash, fun arrives => ?_⟩
  induction arrives with
  | held held =>
    obtain ⟨event, found⟩ := mem_iff_event?.mp held
    obtain ⟨event, rfl⟩ := (holds_iff linked).mp found
    exact (delivering.grows event).mem
  | @offered event mem unexpired parents ih =>
    by_contra absent
    apply exhausted event mem
    rw [classify_eq_insertable, delivering.watermark_eq]
    refine ⟨absent, unexpired, fun line descriptor named => ?_⟩
    rw [delivering.watermark_eq, or_iff_not_imp_right]
    exact ih line descriptor named

omit delivering in
theorem graph_eq {reordered later : List ε} {other : Replica ε} (history : IsHistory events)
    (one : Delivering events start offered pending current)
    (two : Delivering events start reordered later other)
    (same : ∀ hash, hash ∈ current.graph ↔ hash ∈ other.graph) : current.graph = other.graph := by
  apply one.coherent.graph_eq_of_events two.coherent
  ext event
  rw [mem_events_iff one.coherent.linked, mem_events_iff two.coherent.linked]
  constructor
  · intro held
    exact two.coherent.holds_of_mem history (one.coherent.mem_of_holds held) ((same _).mp held.mem)
  · intro held
    exact one.coherent.holds_of_mem history (two.coherent.mem_of_holds held) ((same _).mpr held.mem)

end Delivering

theorem Arrives.congr {reordered : List ε} (same : ∀ event, event ∈ reordered ↔ event ∈ offered)
    {hash : EventHash} (arrives : Arrives replica offered hash) :
    Arrives replica reordered hash := by
  induction arrives with
  | held held => exact .held held
  | offered mem unexpired parents ih => exact .offered ((same _).mpr mem) unexpired ih

/-- However a set of events is ordered from pass to pass, its delivery comes to an end, and in the
end the graph, the set of tips and the watermark are the same. -/
theorem deliver_confluent (history : IsHistory events) (reached : Reached events replica)
    {reordered : List ε} (mem : ∀ event ∈ offered, event ∈ events)
    (same : ∀ event, event ∈ reordered ↔ event ∈ offered) (first second : Arrangement ε) :
    let settled := (replica.deliver first 0 offered).2
    let other := (replica.deliver second 0 reordered).2
    (replica.deliver first 0 offered).1 ≤ offered.length + 1 ∧
      (∀ event ∈ offered, settled.classify event ≠ .insertable) ∧
      (∀ hash, hash ∈ settled.graph ↔ Arrives replica offered hash) ∧
      settled.graph = other.graph ∧ (∀ tip, tip ∈ settled.tips ↔ tip ∈ other.tips) ∧
      settled.watermark = replica.watermark ∧ other.watermark = replica.watermark := by
  intro settled other
  have coherent := reached.coherent history
  obtain ⟨⟨_, one⟩, exhausted, bound⟩ := (Delivering.refl coherent).deliver history mem first 0
  obtain ⟨⟨_, two⟩, otherExhausted, -⟩ := (Delivering.refl coherent).deliver history
    (fun event listed => mem event ((same event).mp listed)) second 0
  have held_iff (hash : EventHash) : hash ∈ settled.graph ↔ Arrives replica offered hash :=
    one.mem_iff_arrives exhausted coherent.linked
  have otherHeld_iff (hash : EventHash) : hash ∈ other.graph ↔ Arrives replica reordered hash :=
    two.mem_iff_arrives otherExhausted coherent.linked
  have sameGraph : settled.graph = other.graph := by
    apply one.graph_eq history two
    intro hash
    rw [held_iff, otherHeld_iff]
    exact ⟨Arrives.congr same, Arrives.congr fun event => (same event).symm⟩
  refine ⟨by omega, exhausted, held_iff, sameGraph, ?_, one.watermark_eq, two.watermark_eq⟩
  exact one.coherent.toTracked.mem_tips_iff_of_graph two.coherent.toTracked sameGraph

/-- Children before their parents and again, and the other way round. -/
theorem deliver_confluent_forked :
    let replica : Replica Outline := ((∅ : Replica Outline).addEvents [forkedOutline 1]).2
    let offered := [forkedOutline 3, forkedOutline 2, forkedOutline 0]
    let reordered := [forkedOutline 0, forkedOutline 3, forkedOutline 2, forkedOutline 3]
    let listed : Arrangement Outline := ⟨fun _ offered => offered, fun _ _ => .refl _⟩
    let reversed : Arrangement Outline := ⟨fun _ => List.reverse, fun _ => List.reverse_perm⟩
    let settled := (replica.deliver listed 0 offered).2
    let other := (replica.deliver reversed 0 reordered).2
    (replica.deliver listed 0 offered).1 ≤ 4 ∧
      (∀ event ∈ offered, settled.classify event ≠ .insertable) ∧
      (∀ hash, hash ∈ settled.graph ↔ Arrives replica offered hash) ∧
      settled.graph = other.graph ∧ (∀ tip, tip ∈ settled.tips ↔ tip ∈ other.tips) ∧
      settled.watermark = replica.watermark ∧ other.watermark = replica.watermark := by
  intro replica offered reordered listed reversed
  have history : IsHistory {event | event ∈ forkedOutlines} := by decide +kernel
  have reached : Reached {event | event ∈ forkedOutlines} replica :=
    Steps.reached (Steps.addEvents (List.forall_mem_singleton.mpr (forkedOutline_mem 1))) .empty
  have mem : ∀ event ∈ offered, event ∈ {event | event ∈ forkedOutlines} :=
    (List.forall_mem_map (l := [3, 2, 0])).mpr fun place _ => forkedOutline_mem place
  have same (event : Outline) : event ∈ reordered ↔ event ∈ offered := by
    simp only [reordered, offered, List.mem_cons, List.not_mem_nil, or_false]
    tauto
  exact deliver_confluent history reached mem same listed reversed

end Replica
end Hashgraph
