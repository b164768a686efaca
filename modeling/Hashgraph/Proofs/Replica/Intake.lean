import Mathlib.Data.List.Nodup
import Hashgraph.Proofs.Graph.Links
import Hashgraph.Replica.Intake

/-! What intake does. An event is taken in exactly when it is not held, not expired, and each of
its parents is held or expired; then the graph takes it in and it replaces its self-parent among
the tips. In all other cases the replica stays as it is. -/

namespace Hashgraph.Replica

open DagEvent

variable {ε : Type} {replica : Replica ε}

theorem isMissing_eq_false {parent : Descriptor} : replica.isMissing parent = false ↔
    parent.hash ∈ replica.graph ∨ parent.generation ≤ replica.watermark := by
  rw [isMissing, isExpired, Bool.and_eq_false_iff, Bool.not_eq_false', Bool.not_eq_false',
    decide_eq_true_iff]
  rfl

theorem any_isMissing_eq_false {parent : Option Descriptor} :
    parent.any replica.isMissing = false ↔ ∀ descriptor, parent = some descriptor →
      descriptor.hash ∈ replica.graph ∨ descriptor.generation ≤ replica.watermark := by
  cases parent with
  | none => simp
  | some parent => simp [isMissing_eq_false]

variable [DagEvent ε] {event : ε}

/-- Each parent that the event names is held or expired. -/
def Settles (replica : Replica ε) (event : ε) : Prop :=
  ∀ (line : Line) (descriptor : Descriptor), parent line event = some descriptor →
    descriptor.hash ∈ replica.graph ∨ descriptor.generation ≤ replica.watermark

theorem settles_iff : replica.Settles event ↔
    (otherParent event).any replica.isMissing = false ∧
      (selfParent event).any replica.isMissing = false := by
  rw [any_isMissing_eq_false, any_isMissing_eq_false]
  constructor
  · exact fun settles => ⟨settles .other, settles .self⟩
  · rintro ⟨other, self⟩ line
    cases line with
    | self => exact self
    | other => exact other

theorem classify_eq_insertable : replica.classify event = .insertable ↔
    hash event ∉ replica.graph ∧ ¬ generation event ≤ replica.watermark ∧
      replica.Settles event := by
  rw [settles_iff, classify, isExpired]
  change (if hash event ∈ replica.graph then _ else _) = _ ↔ _
  split
  · simp_all
  · split
    · simp_all
    · split
      · simp_all
      · split <;> simp_all

/-- An event whose parents are held or expired never waits for one. -/
theorem Settles.not_isRetryable (settles : replica.Settles event) :
    (replica.classify event).isRetryable = false := by
  obtain ⟨other, self⟩ := settles_iff.mp settles
  rw [classify, other, self]
  split
  · rfl
  · split <;> rfl

def tipsAfter (tips : List EventHash) (event : ε) : List EventHash :=
  match selfParent event with
  | none => addTip tips (hash event)
  | some parent => (addTip tips (hash event)).erase parent.hash

theorem addEvent_of_insertable (insertable : replica.classify event = .insertable) :
    ∃ graph, replica.graph.insert event = .ok graph ∧ replica.addEvent event =
      (.insertable, { replica with graph, tips := tipsAfter replica.tips event }) := by
  obtain ⟨graph, inserted⟩ := ShadowGraph.insert_ok (classify_eq_insertable.mp insertable).1
  refine ⟨graph, inserted, ?_⟩
  simp only [addEvent, insertable, inserted]
  rfl

theorem addEvent_of_refused (refused : replica.classify event ≠ .insertable) :
    replica.addEvent event = (replica.classify event, replica) := by
  unfold addEvent
  split
  · contradiction
  · rfl

/-- The status that intake answers is the status that classification announces. -/
theorem addEvent_fst : (replica.addEvent event).1 = replica.classify event := by
  by_cases insertable : replica.classify event = .insertable
  · obtain ⟨_, _, added⟩ := addEvent_of_insertable insertable
    rw [added, insertable]
  · rw [addEvent_of_refused insertable]

@[simp] theorem addEvent_watermark : (replica.addEvent event).2.watermark = replica.watermark := by
  by_cases insertable : replica.classify event = .insertable
  · obtain ⟨_, _, added⟩ := addEvent_of_insertable insertable
    rw [added]
  · rw [addEvent_of_refused insertable]

section Tips

variable {tips : List EventHash}

theorem addTip_of_not_mem (fresh : hash event ∉ tips) :
    addTip tips (hash event) = tips ++ [hash event] := if_neg fresh

theorem nodup_addTip (nodup : tips.Nodup) (fresh : hash event ∉ tips) :
    (addTip tips (hash event)).Nodup := by
  rw [addTip_of_not_mem fresh]
  exact List.nodup_append.mpr ⟨nodup, List.nodup_singleton _, by
    rintro tip mem _ last rfl
    exact fresh (List.mem_singleton.mp last ▸ mem)⟩

theorem nodup_tipsAfter (nodup : tips.Nodup) (fresh : hash event ∉ tips) :
    (tipsAfter tips event).Nodup := by
  unfold tipsAfter
  split
  · exact nodup_addTip nodup fresh
  · exact (nodup_addTip nodup fresh).erase _

theorem mem_tipsAfter (nodup : tips.Nodup) (fresh : hash event ∉ tips) {tip : EventHash} :
    tip ∈ tipsAfter tips event ↔
      (tip ∈ tips ∨ tip = hash event) ∧ ¬ Names .self event tip := by
  have added : tip ∈ addTip tips (hash event) ↔ tip ∈ tips ∨ tip = hash event := by
    rw [addTip_of_not_mem fresh, List.mem_append, List.mem_singleton]
  unfold tipsAfter
  split
  · rename_i none
    simp [added, Names, parent, none]
  · rename_i parent' some
    rw [(nodup_addTip nodup fresh).mem_erase_iff, added]
    simp [Names, parent, some, eq_comm, and_comm]

end Tips

end Hashgraph.Replica
