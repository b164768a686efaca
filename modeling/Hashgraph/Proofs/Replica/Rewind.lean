import Hashgraph.Proofs.Exchange.Phases
import Hashgraph.Proofs.Replica.Order

/-! What a replica tells its peers after the watermark was lowered. A parent may then be accepted
while children of it are held, and it never learns of these. What is recorded is settled by the
order of acceptance: a child is recorded exactly where its parent was accepted before it. -/

namespace Hashgraph

open DagEvent ShadowGraph

variable {ε : Type} [DagEvent ε] {events : Set ε}

namespace Replica

/-- Some held event names this hash as its self-parent. -/
def IsExtended (replica : Replica ε) (hash : EventHash) : Prop :=
  ∃ child event, replica.graph.event? child = some event ∧ Names .self event hash

/-- Some held event extends this hash and was accepted after it. -/
def IsExtendedSince (log : List EventHash) (replica : Replica ε) (hash : EventHash) : Prop :=
  ∃ child event, replica.graph.event? child = some event ∧ Names .self event hash ∧
    Precedes log hash child

/-- No tip is extended, and the answers name exactly the held hashes that are. -/
structure TellsTruth (replica : Replica ε) : Prop where
  tips : ∀ tip ∈ replica.tips, ¬ replica.IsExtended tip
  booleans : ∀ hashes, List.Forall₂
    (fun hash answer => answer = true ↔ hash ∈ replica.graph ∧ replica.IsExtended hash)
    hashes (replica.tipBooleans hashes)

variable {replica : Replica ε} {event : ε} {log : List EventHash}

theorem IsExtendedSince.isExtended {hash : EventHash} (since : IsExtendedSince log replica hash) :
    replica.IsExtended hash := by
  obtain ⟨child, event, found, names, -⟩ := since
  exact ⟨child, event, found, names⟩

omit [DagEvent ε] in
theorem forall₂_tipBooleans {meant : EventHash → Prop} {hashes : List EventHash} :
    List.Forall₂ (fun hash answer => answer = true ↔ meant hash) hashes
        (replica.tipBooleans hashes) ↔
      ∀ hash ∈ hashes, (∃ child, replica.graph.IsChild .self hash child) ↔ meant hash := by
  rw [tipBooleans, List.forall₂_map_right_iff, List.forall₂_same]
  simp only [hasSelfChild_iff]

/-- A replica tells the truth if its graph records a child wherever there is one. -/
theorem Tracked.tellsTruth_iff (tracked : replica.Tracked) : replica.TellsTruth ↔
    ∀ hash, (∃ child, replica.graph.IsChild .self hash child) ↔
      hash ∈ replica.graph ∧ replica.IsExtended hash := by
  constructor
  · intro truth hash
    exact forall₂_tipBooleans.mp (truth.booleans [hash]) hash (List.mem_singleton_self _)
  · intro exact_links
    refine ⟨?_, fun hashes => forall₂_tipBooleans.mpr fun hash _ => exact_links hash⟩
    intro tip mem extended
    have leaf := tracked.mem_tips.mp mem
    obtain ⟨child, recorded⟩ := (exact_links tip).mpr ⟨leaf.1, extended⟩
    exact leaf.2 child recorded

structure Logged (events : Set ε) (replica : Replica ε) (log : List EventHash) : Prop
    extends Gathered events replica where
  held_accepted : ∀ {hash : EventHash}, hash ∈ replica.graph → hash ∈ log
  records_iff : ∀ {line : Line} {parent child : EventHash},
    replica.graph.IsChild line parent child ↔ parent ∈ replica.graph ∧
      ∃ event, replica.graph.event? child = some event ∧ Names line event parent ∧
        Precedes log parent child

namespace Logged

theorem empty (log : List EventHash) : Logged events ∅ log where
  toGathered := .empty
  held_accepted held := (not_mem_empty _ held).elim
  records_iff :=
    iff_of_false not_isChild_empty fun recorded => not_mem_empty _ recorded.1

theorem addEvent (logged : Logged events replica log) (ascending : IsAscending events)
    (offered : event ∈ events) :
    Logged events (replica.addEvent event).2 (log ++ replica.accepted (.add event)) := by
  have gathered := logged.toGathered.addEvent ascending offered
  by_cases insertable : replica.classify event = .insertable
  · have absent := (classify_eq_insertable.mp insertable).1
    obtain ⟨graph, inserted, added⟩ := addEvent_of_insertable insertable
    rw [added] at gathered ⊢
    rw [accepted_of_insertable insertable]
    refine ⟨gathered, ?_, ?_⟩
    · intro other held
      rcases (mem_insert inserted).mp held with rfl | earlier
      · exact List.mem_append_right _ (List.mem_singleton_self _)
      · exact List.mem_append_left _ (logged.held_accepted earlier)
    · intro line parent child
      rw [isChild_insert inserted, logged.records_iff, mem_insert inserted]
      simp only [event?_insert inserted, precedes_append_singleton]
      by_cases newParent : parent = hash event
      · -- the new event has no recorded children, and nothing was accepted after it
        subst newParent
        simp [absent]
      · by_cases newChild : child = hash event
        · subst newChild
          constructor
          · rintro (⟨-, other, found, -⟩ | ⟨held, -, names⟩)
            · exact (absent (mem_of_event? found)).elim
            · exact ⟨.inr held, event, if_pos rfl, names, newParent,
                .inl ⟨rfl, logged.held_accepted held⟩⟩
          · rintro ⟨held, other, found, names, -⟩
            rw [if_pos rfl] at found
            cases found
            exact .inr ⟨held.resolve_left newParent, rfl, names⟩
        · simp [newParent, newChild, Ne.symm newChild]
  · rw [addEvent_of_refused insertable] at gathered ⊢
    rw [accepted_of_refused insertable, List.append_nil]
    exact logged

theorem setWatermark (logged : Logged events replica log) (watermark : Generation) :
    Logged events (replica.setWatermark watermark) log where
  toGathered := logged.toGathered.setWatermark watermark
  held_accepted := logged.held_accepted
  records_iff := logged.records_iff

theorem expire (logged : Logged events replica log) (ascending : IsAscending events) :
    Logged events replica.expire.2 log := by
  obtain ⟨pruned, -, -⟩ := logged.toTracked.expire (logged.falling ascending)
  refine ⟨logged.toGathered.expire ascending, ?_, ?_⟩
  · exact fun held => logged.held_accepted (pruned.mem_iff.mp held).2
  · intro line parent child
    rw [pruned.isChild_iff, logged.records_iff, pruned.mem_iff]
    simp only [pruned.event?_eq_some]
    constructor
    · rintro ⟨parentKept, childKept, held, event, found, rest⟩
      exact ⟨⟨parentKept, held⟩, event, ⟨childKept, found⟩, rest⟩
    · rintro ⟨⟨parentKept, held⟩, event, ⟨childKept, found⟩, rest⟩
      exact ⟨parentKept, childKept, held, event, found, rest⟩

theorem isKept (ascending : IsAscending events) : IsKept events (Logged events) where
  add offered logged := logged.addEvent ascending offered
  setWatermark watermark logged := logged.setWatermark watermark
  expire logged := logged.expire ascending
  clear := .empty

theorem exists_child_iff (logged : Logged events replica log) {hash : EventHash} :
    (∃ child, replica.graph.IsChild .self hash child) ↔
      hash ∈ replica.graph ∧ IsExtendedSince log replica hash := by
  simp only [logged.records_iff, exists_and_left]
  rfl

theorem mem_tips_iff (logged : Logged events replica log) {tip : EventHash} :
    tip ∈ replica.tips ↔ tip ∈ replica.graph ∧ ¬ IsExtendedSince log replica tip := by
  rw [logged.mem_tips, IsLeaf, ← not_exists, logged.exists_child_iff, not_and]
  exact and_congr_right fun held => forall_prop_of_true held

end Logged

/-- After any run from nothing, tips and answers go by the children that were accepted after their
parents. They tell the truth as long as each held event that is extended has such a child. -/
theorem tellsTruth_iff_of_runs (ascending : IsAscending events) {commands : List (Command ε)}
    (offers : Offers events commands) :
    let replica := (∅ : Replica ε).performAll commands
    let log := (∅ : Replica ε).acceptances commands
    (∀ tip, tip ∈ replica.tips ↔ tip ∈ replica.graph ∧ ¬ IsExtendedSince log replica tip) ∧
      (∀ hashes, List.Forall₂
        (fun hash answer => answer = true ↔ hash ∈ replica.graph ∧ IsExtendedSince log replica hash)
        hashes (replica.tipBooleans hashes)) ∧
      (replica.TellsTruth ↔
        ∀ hash ∈ replica.graph, replica.IsExtended hash → IsExtendedSince log replica hash) := by
  intro replica log
  have logged : Logged events replica ([] ++ log) :=
    (Logged.isKept ascending).performAll [] (.empty []) offers
  rw [List.nil_append] at logged
  refine ⟨fun tip => logged.mem_tips_iff, ?_, ?_⟩
  · intro hashes
    exact forall₂_tipBooleans.mpr fun hash _ => logged.exists_child_iff
  · rw [logged.toTracked.tellsTruth_iff]
    refine forall_congr' fun hash => ?_
    rw [logged.exists_child_iff, and_congr_right_iff]
    exact imp_congr_right fun _ => ⟨Iff.mpr, fun since => ⟨IsExtendedSince.isExtended, since⟩⟩

theorem tellsTruth_iff_of_rewinding :
    let replica := (∅ : Replica Outline).performAll rewinding
    let log := (∅ : Replica Outline).acceptances rewinding
    IsAscending {event | event ∈ forkedOutlines} ∧
      Offers {event | event ∈ forkedOutlines} rewinding ∧
      (∀ tip, tip ∈ replica.tips ↔ tip ∈ replica.graph ∧ ¬ IsExtendedSince log replica tip) ∧
      (∀ hashes, List.Forall₂
        (fun hash answer => answer = true ↔ hash ∈ replica.graph ∧ IsExtendedSince log replica hash)
        hashes (replica.tipBooleans hashes)) ∧
      (replica.TellsTruth ↔
        ∀ hash ∈ replica.graph, replica.IsExtended hash → IsExtendedSince log replica hash) := by
  have history : IsHistory {event | event ∈ forkedOutlines} := by decide +kernel
  exact ⟨history.isAscending, offers_rewinding,
    tellsTruth_iff_of_runs history.isAscending offers_rewinding⟩

/-- The parent stays a tip although its child is held, and the answer on it is no. -/
theorem not_tellsTruth_rewinding : IsHistory {event | event ∈ forkedOutlines} ∧
    Offers {event | event ∈ forkedOutlines} rewinding ∧
    ¬ ((∅ : Replica Outline).performAll rewinding).TellsTruth := by
  refine ⟨by decide +kernel, offers_rewinding, ?_⟩
  intro truth
  have tip : EventHash.filled 1 ∈ ((∅ : Replica Outline).performAll rewinding).tips := by
    decide +kernel
  have held : ((∅ : Replica Outline).performAll rewinding).graph.event? (.filled 4) =
      some (forkedOutline 3) := by decide +kernel
  exact truth.tips _ tip ⟨_, _, held, by decide⟩

/-- Where the watermark is never lowered the question does not arise. -/
theorem Reached.tellsTruth (history : IsHistory events) (reached : Reached events replica) :
    replica.TellsTruth := by
  have coherent := reached.coherent history
  refine coherent.toTracked.tellsTruth_iff.mpr fun hash => ?_
  constructor
  · rintro ⟨child, recorded⟩
    exact ⟨recorded.mem, child, (coherent.isChild_iff recorded.mem).mp recorded⟩
  · rintro ⟨held, child, named⟩
    exact ⟨child, (coherent.isChild_iff held).mpr named⟩

end Replica
end Hashgraph
