import Mathlib.Data.List.Dedup
import Hashgraph.Proofs.Replica.Run

/-! The order of acceptance. A run leaves behind a log of the hashes that intake accepted. A hash
that was swept and accepted again stands in it more than once, and its last place is the one that
counts. In that order stand the tips, behind those of the adopted graph that were never accepted. -/

namespace Hashgraph

open DagEvent ShadowGraph

section Log

variable {log tips : List EventHash} {earlier later last : EventHash}

theorem dedup_append_singleton (log : List EventHash) (last : EventHash) :
    (log ++ [last]).dedup = log.dedup.filter (fun hash => hash ≠ last) ++ [last] := by
  induction log with
  | nil => rfl
  | cons first rest ih =>
    rw [List.cons_append]
    by_cases again : first ∈ rest
    · rw [List.dedup_cons_of_mem (List.mem_append_left _ again), List.dedup_cons_of_mem again, ih]
    · rw [List.dedup_cons_of_notMem again]
      by_cases same : first = last
      · subst same
        have mem : first ∈ rest ++ [first] := List.mem_append_right _ (List.mem_singleton_self _)
        rw [List.dedup_cons_of_mem mem, ih]
        simp
      · have fresh : first ∉ rest ++ [last] := by simp [again, same]
        rw [List.dedup_cons_of_notMem fresh, ih]
        simp [same]

/-- The latest place of one hash in a log lies before the latest place of another. -/
def Precedes (log : List EventHash) (earlier later : EventHash) : Prop :=
  [earlier, later].Sublist log.dedup

instance : Decidable (Precedes log earlier later) :=
  inferInstanceAs (Decidable (List.Sublist _ _))

theorem precedes_append_singleton : Precedes (log ++ [last]) earlier later ↔
    earlier ≠ last ∧ (later = last ∧ earlier ∈ log ∨ later ≠ last ∧ Precedes log earlier later) := by
  rw [Precedes, dedup_append_singleton]
  constructor
  · intro listed
    obtain ⟨front, back, split, inFront, inBack⟩ := List.sublist_append_iff.mp listed
    cases front with
    | nil =>
      rw [List.nil_append] at split
      have short := inBack.length_le
      simp [← split] at short
    | cons first front =>
      cases front with
      | nil =>
        obtain ⟨rfl, rfl⟩ : earlier = first ∧ [later] = back := by simpa using split
        have kept : earlier ∈ log ∧ earlier ≠ last := by simpa using inFront
        exact ⟨kept.2, .inl ⟨by simpa using inBack, kept.1⟩⟩
      | cons second front =>
        obtain ⟨rfl, rfl, rfl, -⟩ : earlier = first ∧ later = second ∧ front = [] ∧ back = [] := by
          simpa using split
        have kept : ∀ hash ∈ [earlier, later], hash ≠ last := by
          intro hash mem
          exact of_decide_eq_true (List.mem_filter.mp (inFront.subset mem)).2
        have whole := inFront.trans List.filter_sublist
        exact ⟨kept earlier (by simp), .inr ⟨kept later (by simp), whole⟩⟩
  · rintro ⟨kept, ⟨rfl, mem⟩ | ⟨other, before⟩⟩
    · have front : [earlier].Sublist (log.dedup.filter fun hash => hash ≠ later) := by
        simp [mem, kept]
      exact front.append (.refl [later])
    · have front := before.filter fun hash => hash ≠ last
      rw [List.filter_eq_self.mpr] at front
      · exact front.trans (List.sublist_append_left _ _)
      · simp [kept, other]

/-- The adopted tips that were never accepted, then the accepted hashes by their latest
acceptance. -/
def ranking (adopted log : List EventHash) : List EventHash :=
  adopted.filter (fun tip => tip ∉ log) ++ log.dedup

theorem ranking_append_singleton (adopted log : List EventHash) (last : EventHash) :
    ranking adopted (log ++ [last]) =
      (ranking adopted log).filter (fun hash => hash ≠ last) ++ [last] := by
  have spared : adopted.filter (fun tip => tip ∉ log ++ [last]) =
      (adopted.filter fun tip => tip ∉ log).filter fun hash => hash ≠ last := by
    rw [List.filter_filter]
    apply List.filter_congr
    intro tip _
    simp [and_comm]
  rw [ranking, ranking, spared, dedup_append_singleton, List.filter_append, List.append_assoc]

end Log

variable {ε : Type} [DagEvent ε] {events : Set ε}

namespace Replica

variable {replica start : Replica ε} {event : ε} {adopted log : List EventHash}

theorem accepted_of_insertable (insertable : replica.classify event = .insertable) :
    replica.accepted (.add event) = [hash event] := by
  rw [accepted, addEvent_fst, if_pos insertable]

theorem accepted_of_refused (refused : replica.classify event ≠ .insertable) :
    replica.accepted (.add event) = [] := by
  rw [accepted, addEvent_fst, if_neg refused]

theorem tipsAfter_sublist {tips : List EventHash} (fresh : hash event ∉ tips) :
    (tipsAfter tips event).Sublist (tips ++ [hash event]) := by
  unfold tipsAfter
  rw [addTip_of_not_mem fresh]
  split
  · exact .refl _
  · exact List.erase_sublist

theorem expire_tips_sublist : replica.expire.2.tips.Sublist replica.tips := by
  change (List.foldl List.erase replica.tips _).Sublist replica.tips
  rw [← List.diff_eq_foldl]
  exact List.diff_sublist _ _

/-- The invariant of runs that keep a log. -/
structure Ranked (events : Set ε) (adopted : List EventHash) (replica : Replica ε)
    (log : List EventHash) : Prop extends Gathered events replica where
  tips_sublist : replica.tips.Sublist (ranking adopted log)

namespace Ranked

theorem addEvent (ranked : Ranked events adopted replica log) (ascending : IsAscending events)
    (offered : event ∈ events) :
    Ranked events adopted (replica.addEvent event).2 (log ++ replica.accepted (.add event)) := by
  refine ⟨ranked.toGathered.addEvent ascending offered, ?_⟩
  by_cases insertable : replica.classify event = .insertable
  · obtain ⟨graph, inserted, added⟩ := addEvent_of_insertable insertable
    have absent := (classify_eq_insertable.mp insertable).1
    have fresh : hash event ∉ replica.tips := fun tip => absent (ranked.mem_tips.mp tip).1
    have others := ranked.tips_sublist.filter fun tip => tip ≠ hash event
    rw [List.filter_eq_self.mpr] at others
    · rw [added, accepted_of_insertable insertable, ranking_append_singleton]
      exact (tipsAfter_sublist fresh).trans (others.append (.refl _))
    · intro tip mem
      exact decide_eq_true fun same => fresh (same ▸ mem)
  · rw [addEvent_of_refused insertable, accepted_of_refused insertable, List.append_nil]
    exact ranked.tips_sublist

theorem isKept (ascending : IsAscending events) :
    IsKept events (Ranked events adopted) where
  add offered ranked := ranked.addEvent ascending offered
  setWatermark watermark ranked := ⟨ranked.setWatermark watermark, ranked.tips_sublist⟩
  expire ranked :=
    ⟨ranked.expire ascending, expire_tips_sublist.trans ranked.tips_sublist⟩
  clear _ := ⟨.empty, List.nil_sublist _⟩

end Ranked

/-- In every state of every run the tips are the held shadows without recorded self-children, each
listed once, adopted ones first and then the others by their latest acceptance. -/
theorem tips_of_runs (ascending : IsAscending events) (starts : Start events start)
    {commands : List (Command ε)} (offers : Offers events commands) :
    let replica := start.performAll commands
    replica.tips.Nodup ∧
      (∀ tip, tip ∈ replica.tips ↔
        ∃ shadow, replica.graph.get? tip = some shadow ∧ shadow.selfChildren = ∅) ∧
      replica.tips.Sublist (ranking start.tips (start.acceptances commands)) := by
  intro replica
  have first : Ranked events start.tips start [] := by
    refine ⟨starts.gathered, ?_⟩
    simp [ranking]
  have ranked : Ranked events start.tips replica ([] ++ start.acceptances commands) :=
    (Ranked.isKept ascending).performAll [] first offers
  refine ⟨ranked.nodup, ?_, ranked.tips_sublist⟩
  intro tip
  rw [ranked.mem_tips]
  constructor
  · intro leaf
    obtain ⟨event, found⟩ := mem_iff_event?.mp leaf.1
    obtain ⟨shadow, held, -⟩ := exists_shadow found
    exact ⟨shadow, held, Std.ExtTreeSet.isEmpty_iff.mp ((isLeaf_iff_isTip held).mp leaf)⟩
  · rintro ⟨shadow, held, childless⟩
    exact (isLeaf_iff_isTip held).mpr (Std.ExtTreeSet.isEmpty_iff.mpr childless)

theorem tips_of_runs_lateParent :
    let replica := lateParent.performAll widening
    IsAscending {event | event ∈ forkedOutlines} ∧
      Start {event | event ∈ forkedOutlines} lateParent ∧
      Offers {event | event ∈ forkedOutlines} widening ∧ replica.tips.Nodup ∧
      (∀ tip, tip ∈ replica.tips ↔
        ∃ shadow, replica.graph.get? tip = some shadow ∧ shadow.selfChildren = ∅) ∧
      replica.tips.Sublist (ranking lateParent.tips (lateParent.acceptances widening)) := by
  have history : IsHistory {event | event ∈ forkedOutlines} := by decide +kernel
  exact ⟨history.isAscending, start_lateParent, offers_widening,
    tips_of_runs history.isAscending start_lateParent offers_widening⟩

example : (lateParent.performAll widening).tips = [.filled 4, .filled 2, .filled 3] ∧
    ranking lateParent.tips (lateParent.acceptances widening) =
      [.filled 1, .filled 4, .filled 2, .filled 3] := by decide +kernel

end Replica
end Hashgraph
