import Hashgraph.Proofs.Replica.Coherence
import Hashgraph.Replica.Consistency

/-! The consistency check accepts a replica exactly when its tips and parents are right, and it
accepts every replica that a run over a history reaches. -/

namespace Hashgraph

open DagEvent ShadowGraph

variable {ε : Type}

section Checks

theorem bind_eq_ok {first second : Except Fault Unit} :
    (do first; second) = .ok () ↔ first = .ok () ∧ second = .ok () := by
  cases first with
  | error fault => simp [bind, Except.bind]
  | ok => simp [bind, Except.bind]

theorem forM_eq_ok {α : Type} {items : List α} {check : α → Except Fault Unit} :
    items.forM check = .ok () ↔ ∀ item ∈ items, check item = .ok () := by
  induction items with
  | nil => simp [pure, Except.pure]
  | cons item rest ih =>
    change (do check item; rest.forM check) = .ok () ↔ _
    rw [bind_eq_ok, ih, List.forall_mem_cons]

end Checks

theorem ShadowGraph.mem_toList {g : ShadowGraph ε} {shadow : Shadow ε} :
    shadow ∈ g.toList ↔ ∃ hash, g.get? hash = some shadow := by
  rw [toList, List.mem_map]
  constructor
  · rintro ⟨⟨hash, _⟩, mem, rfl⟩
    exact ⟨hash, Std.ExtTreeMap.mem_toList_iff_getElem?_eq_some.mp mem⟩
  · rintro ⟨hash, held⟩
    exact ⟨(hash, shadow), Std.ExtTreeMap.mem_toList_iff_getElem?_eq_some.mpr held, rfl⟩

variable [DagEvent ε]

namespace Replica

/-- What the consistency check is about. -/
structure IsConsistent (replica : Replica ε) : Prop where
  tips_held : ∀ tip ∈ replica.tips, tip ∈ replica.graph
  tip_iff : ∀ {hash : EventHash} {shadow : Shadow ε}, replica.graph.get? hash = some shadow →
    (shadow.hash ∈ replica.tips ↔ ∀ child ∈ shadow.selfChildren, child ∉ replica.graph)
  missing_expired : ∀ {hash : EventHash} {shadow : Shadow ε},
    replica.graph.get? hash = some shadow → ∀ parent ∈ shadow.parents,
    parent.hash ∉ replica.graph → parent.generation ≤ replica.watermark

/-- Held events are recorded exactly at the held parents that they name. -/
def HasExactLinks (replica : Replica ε) : Prop :=
  ∀ {parent child : EventHash} {older younger : Shadow ε},
    replica.graph.get? parent = some older → replica.graph.get? child = some younger →
    (child ∈ older.selfChildren ↔ younger.selfParent.map Descriptor.hash = some parent) ∧
      (child ∈ older.otherChildren ↔ younger.otherParent.map Descriptor.hash = some parent)

variable {replica : Replica ε}

omit [DagEvent ε] in
theorem checkTip_eq_ok {tip : EventHash} :
    replica.checkTip tip = .ok () ↔ tip ∈ replica.graph := by
  unfold checkTip
  split <;> simp_all

theorem checkParent_eq_ok {child : Shadow ε} {parent : Descriptor} :
    replica.checkParent child parent = .ok () ↔
      (parent.hash ∉ replica.graph → parent.generation ≤ replica.watermark) := by
  rw [← or_iff_not_imp_left, ← isMissing_eq_false, checkParent]
  split <;> simp_all

omit [DagEvent ε] in
theorem hasHeldSelfChild_eq_false {shadow : Shadow ε} : replica.hasHeldSelfChild shadow = false ↔
    ∀ child ∈ shadow.selfChildren, child ∉ replica.graph := by
  simp only [hasHeldSelfChild, List.any_eq_false, Std.ExtTreeSet.mem_toList]
  rfl

theorem checkShadow_eq_ok {shadow : Shadow ε} : replica.checkShadow shadow = .ok () ↔
    (shadow.hash ∈ replica.tips ↔ ∀ child ∈ shadow.selfChildren, child ∉ replica.graph) ∧
      ∀ parent ∈ shadow.parents, parent.hash ∉ replica.graph →
        parent.generation ≤ replica.watermark := by
  have verdict : replica.hasHeldSelfChild shadow = decide (shadow.hash ∈ replica.tips) ↔
      ¬ (shadow.hash ∈ replica.tips ↔ ∀ child ∈ shadow.selfChildren, child ∉ replica.graph) := by
    rw [← hasHeldSelfChild_eq_false]
    by_cases tip : shadow.hash ∈ replica.tips <;> simp [tip]
  have parents : shadow.parents.forM (replica.checkParent shadow) = .ok () ↔
      ∀ parent ∈ shadow.parents, parent.hash ∉ replica.graph →
        parent.generation ≤ replica.watermark :=
    forM_eq_ok.trans (forall₂_congr fun _ _ => checkParent_eq_ok)
  rw [← parents, checkShadow]
  split
  · rename_i broken
    exact iff_of_false (by simp) fun right => verdict.mp broken right.1
  · rename_i right
    rw [verdict, not_not] at right
    exact (and_iff_right right).symm

theorem checkConsistency_eq_ok : replica.checkConsistency = .ok () ↔ replica.IsConsistent := by
  rw [checkConsistency, bind_eq_ok, forM_eq_ok, forM_eq_ok]
  simp only [checkTip_eq_ok, checkShadow_eq_ok, mem_toList]
  constructor
  · rintro ⟨tips, shadows⟩
    exact ⟨tips, fun held => (shadows _ ⟨_, held⟩).1, fun held => (shadows _ ⟨_, held⟩).2⟩
  · rintro ⟨tips, tip_iff, missing⟩
    refine ⟨tips, ?_⟩
    rintro shadow ⟨hash, held⟩
    exact ⟨tip_iff held, missing held⟩

variable {events : Set ε}

theorem Tracked.isConsistent (tracked : replica.Tracked) (settled : replica.IsSettled) :
    replica.IsConsistent where
  tips_held tip mem := (tracked.mem_tips.mp mem).1
  tip_iff {hash shadow} held := by
    have own := tracked.linked.hash_eq (event?_of_get? held)
    rw [show shadow.hash = hash from own, tracked.mem_tips, isLeaf_iff_isTip held, Shadow.isTip_iff]
    constructor
    · exact fun childless child mem => (childless child mem).elim
    · intro unheld child mem
      have recorded : replica.graph.IsChild .self hash child :=
        (ShadowGraph.isChild_iff held).mpr mem
      exact unheld child mem (tracked.linked.child_mem recorded)
  missing_expired {hash shadow} held parent mem absent := by
    rw [Shadow.parents, List.mem_append, Option.mem_toList, Option.mem_toList] at mem
    rcases mem with named | named
    · exact (settled _ _ (event?_of_get? held) .self parent named).resolve_left absent
    · exact (settled _ _ (event?_of_get? held) .other parent named).resolve_left absent

theorem Coherent.isConsistent (coherent : Coherent events replica) : replica.IsConsistent :=
  coherent.toTracked.isConsistent coherent.settled.isSettled

theorem Coherent.hasExactLinks (coherent : Coherent events replica) : replica.HasExactLinks := by
  intro parent child older younger parentHeld childHeld
  have exact_on (line : Line) : child ∈ older.childrenOn line ↔
      Names line younger.event parent := by
    rw [← ShadowGraph.isChild_iff parentHeld,
      coherent.isChild_iff (mem_of_event? (event?_of_get? parentHeld)), event?_of_get? childHeld]
    simp
  exact ⟨exact_on .self, exact_on .other⟩

/-- The check says what it is meant to say, and every run over a history passes it with exact
links, however sweeps, watermark moves and clearings are mixed with intake. -/
theorem checkConsistency_of_runs :
    (∀ replica : Replica ε, replica.checkConsistency = .ok () ↔ replica.IsConsistent) ∧
      ∀ {events : Set ε} {replica : Replica ε}, IsHistory events → Reached events replica →
        replica.checkConsistency = .ok () ∧ replica.HasExactLinks := by
  refine ⟨fun _ => checkConsistency_eq_ok, ?_⟩
  intro events replica history reached
  have coherent := reached.coherent history
  exact ⟨checkConsistency_eq_ok.mpr coherent.isConsistent, coherent.hasExactLinks⟩

/-- The second branch of a fork comes in when the event at which it forks is already swept. -/
def lateFork : Replica Outline :=
  [Command.add forkedOutlines[0], .add forkedOutlines[1], .add forkedOutlines[2], .expireTo 0,
    .add forkedOutlines[3]].foldl perform ∅

theorem reached_lateFork : Reached {event | event ∈ forkedOutlines} lateFork := by
  have offered (index : Fin 4) : forkedOutlines[index] ∈ {event | event ∈ forkedOutlines} :=
    List.getElem_mem index.isLt
  have first := Reached.step .empty (.add (offered 0))
  have second := Reached.step first (.add (offered 1))
  have third := Reached.step second (.add (offered 2))
  have raises : (∅ : Replica Outline).watermark ≤ 0 := by decide
  have swept := Reached.step third (.expireTo (by simpa [perform] using raises))
  exact .step swept (.add (offered 3))

theorem checkConsistency_of_lateFork :
    (lateFork.checkConsistency = .ok () ∧ lateFork.HasExactLinks) ∧
      IsHistory {event | event ∈ forkedOutlines} ∧
      Reached {event | event ∈ forkedOutlines} lateFork :=
  have history : IsHistory {event | event ∈ forkedOutlines} := by decide +kernel
  ⟨checkConsistency_of_runs.2 history reached_lateFork, history, reached_lateFork⟩

end Replica
end Hashgraph
