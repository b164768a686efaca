import Mathlib.Data.List.Induction
import Hashgraph.Exchange.Phases
import Hashgraph.Proofs.Exchange.Session
import Hashgraph.Proofs.Graph.Descendants
import Hashgraph.Proofs.Replica.Coverage

/-! The phases in which a session learns what the peer has. From the peer's tips it marks those
that are held, lists what extends them and is not expired, and is left with the local tips that
are neither. From the peer's answers it marks the sent tips that the peer has extended. Neither
the order nor a repetition of tips or answers makes a difference to any of this. -/

namespace Hashgraph

open DagEvent ShadowGraph

variable {ε : Type} [DagEvent ε]

namespace ShadowGraph

variable {g : ShadowGraph ε} {received : List EventHash} {hash : EventHash}

omit [DagEvent ε] in
/-- The hash is a strict self-descendant of one of the received. -/
def Extends (g : ShadowGraph ε) (received : List EventHash) (hash : EventHash) : Prop :=
  ∃ tip ∈ received, Relation.TransGen (g.IsChild .self) tip hash

omit [DagEvent ε] in
/-- The hash is held and received, or extends a received one. -/
def settledBy (g : ShadowGraph ε) (received : List EventHash) (hash : EventHash) : Bool :=
  received.any fun tip => tip ∈ g && (hash == tip || (g.strictSelfDescendants tip).contains hash)

theorem Linked.settledBy_iff (linked : g.Linked) :
    g.settledBy received hash ↔ hash ∈ received ∧ hash ∈ g ∨ g.Extends received hash := by
  simp only [settledBy, List.any_eq_true, Bool.and_eq_true, Bool.or_eq_true, beq_iff_eq,
    decide_eq_true_eq, List.contains_iff_mem, linked.mem_strictSelfDescendants]
  constructor
  · rintro ⟨tip, mem, held, rfl | path⟩
    · exact .inl ⟨mem, held⟩
    · exact .inr ⟨tip, mem, path⟩
  · rintro (⟨mem, held⟩ | ⟨tip, mem, path⟩)
    · exact ⟨hash, mem, held, .inl rfl⟩
    · obtain ⟨child, recorded, _⟩ := Relation.TransGen.head'_iff.mp path
      exact ⟨tip, mem, recorded.mem, .inr path⟩

end ShadowGraph

namespace Replica

variable {replica : Replica ε} {session : Session ε} {hash : EventHash} {received : List EventHash}

section Descendant

@[simp] theorem applyDescendant_marks :
    (replica.applyDescendant session hash).marks = session.marks := by
  unfold applyDescendant
  split
  · rfl
  · split <;> simp

theorem applyDescendant_told :
    (replica.applyDescendant session hash).sentTips = session.sentTips ∧
      (replica.applyDescendant session hash).receivedTips = session.receivedTips := by
  unfold applyDescendant
  split
  · exact ⟨rfl, rfl⟩
  · split <;> simp

theorem applyDescendant_workingTips (nodup : session.workingTips.Nodup) :
    (replica.applyDescendant session hash).workingTips = session.workingTips.filter (· != hash) := by
  unfold applyDescendant
  split
  · exact Session.workingTips_removeWorkingTip nodup
  · split
    · exact Session.workingTips_removeWorkingTip nodup
    · rw [Session.workingTips_removeWorkingTip (by simpa using nodup), Session.enqueue_workingTips]

theorem applyDescendant_filed (linked : replica.graph.Linked) (filed : session.Filed) :
    (replica.applyDescendant session hash).Filed := by
  unfold applyDescendant
  split
  · exact filed.congr rfl rfl
  · rename_i shadow found
    split
    · exact filed.congr rfl rfl
    · exact (filed.enqueue (linked.hash_eq (event?_of_get? found))).congr rfl rfl

theorem mem_applyDescendant (linked : replica.graph.Linked) (filed : session.Filed)
    (held : ∀ event ∈ session.sendList, replica.Holds event) {event : ε} :
    event ∈ (replica.applyDescendant session hash).sendList ↔ event ∈ session.sendList ∨
      replica.Holds event ∧ ¬ generation event ≤ replica.watermark ∧ DagEvent.hash event = hash := by
  unfold applyDescendant
  split
  · rename_i absent
    refine (or_iff_left ?_).symm
    rintro ⟨holds, -, rfl⟩
    exact get?_eq_none.mp absent holds.mem
  · rename_i shadow found
    have here := event?_of_get? found
    have unique {other : ε} (holds : replica.Holds other) (own : DagEvent.hash other = hash) :
        other = shadow.event :=
      Option.some.inj (((holds_iff linked).mpr ⟨holds, own⟩).symm.trans here)
    split
    · rename_i expired
      refine (or_iff_left ?_).symm
      rintro ⟨holds, unexpired, own⟩
      exact unexpired (unique holds own ▸ decide_eq_true_iff.mp expired)
    · rename_i unexpired
      rw [Session.removeWorkingTip_sendList,
        filed.mem_enqueue fun other mem => unique (held other mem)]
      refine or_congr_right ?_
      constructor
      · rintro rfl
        obtain ⟨holds, own⟩ := (holds_iff linked).mp here
        exact ⟨holds, fun expired => unexpired (decide_eq_true expired), own⟩
      · exact fun ⟨holds, _, own⟩ => unique holds own

end Descendant

section Descendants

variable {found : List EventHash}

theorem foldl_applyDescendant_marks :
    (found.foldl replica.applyDescendant session).marks = session.marks := by
  induction found generalizing session with
  | nil => rfl
  | cons hash rest ih => rw [List.foldl_cons, ih, applyDescendant_marks]

theorem foldl_applyDescendant_told :
    (found.foldl replica.applyDescendant session).sentTips = session.sentTips ∧
      (found.foldl replica.applyDescendant session).receivedTips = session.receivedTips := by
  induction found generalizing session with
  | nil => exact ⟨rfl, rfl⟩
  | cons hash rest ih =>
    rw [List.foldl_cons, ih.1, ih.2]
    exact applyDescendant_told

theorem foldl_applyDescendant_workingTips (nodup : session.workingTips.Nodup) :
    (found.foldl replica.applyDescendant session).workingTips =
      session.workingTips.filter fun tip => !found.contains tip := by
  induction found generalizing session with
  | nil => simp
  | cons hash rest ih =>
    have first : (replica.applyDescendant session hash).workingTips =
        session.workingTips.filter (· != hash) := applyDescendant_workingTips nodup
    rw [List.foldl_cons, ih (first ▸ nodup.filter _), first, List.filter_filter]
    refine List.filter_congr fun tip _ => ?_
    rw [List.contains_cons, Bool.not_or, Bool.and_comm]
    rfl

/-- A batch of descendants adds to the send list what is held and not expired among them. -/
theorem foldl_applyDescendant (found : List EventHash) (linked : replica.graph.Linked)
    (filed : session.Filed) (held : ∀ event ∈ session.sendList, replica.Holds event) :
    (found.foldl replica.applyDescendant session).Filed ∧ ∀ event,
      event ∈ (found.foldl replica.applyDescendant session).sendList ↔
        event ∈ session.sendList ∨ replica.Holds event ∧ ¬ generation event ≤ replica.watermark ∧
          DagEvent.hash event ∈ found := by
  induction found generalizing session with
  | nil => simp [filed]
  | cons hash rest ih =>
    have first (event : ε) : event ∈ (replica.applyDescendant session hash).sendList ↔
        event ∈ session.sendList ∨ replica.Holds event ∧ ¬ generation event ≤ replica.watermark ∧
          DagEvent.hash event = hash := mem_applyDescendant linked filed held
    have heldAfter : ∀ event ∈ (replica.applyDescendant session hash).sendList,
        replica.Holds event := by
      intro event mem
      rcases (first event).mp mem with earlier | ⟨holds, -⟩
      · exact held event earlier
      · exact holds
    obtain ⟨filedAfter, later⟩ := ih (applyDescendant_filed linked filed) heldAfter
    refine ⟨filedAfter, fun event => ?_⟩
    rw [List.foldl_cons, later, first, List.mem_cons]
    tauto

end Descendants

theorem foldl_applyTip_told :
    (received.foldl replica.applyTip session).sentTips = session.sentTips ∧
      (received.foldl replica.applyTip session).receivedTips = session.receivedTips := by
  induction received generalizing session with
  | nil => exact ⟨rfl, rfl⟩
  | cons tip rest ih =>
    rw [List.foldl_cons, ih.1, ih.2]
    unfold applyTip
    split
    · exact foldl_applyDescendant_told
    · exact ⟨rfl, rfl⟩

/-- What a session with these received tips knows and lists after the first phase. -/
structure Briefed (replica : Replica ε) (received : List EventHash) (session : Session ε) :
    Prop where
  filed : session.Filed
  marks : ∀ hash : EventHash, session.marks[hash]? =
    if hash ∈ received ∧ hash ∈ replica.graph then some .peerHas else none
  mem_sendList : ∀ {event : ε}, event ∈ session.sendList ↔ replica.Holds event ∧
    ¬ generation event ≤ replica.watermark ∧ replica.graph.Extends received (DagEvent.hash event)
  workingTips : session.workingTips =
    replica.tips.filter fun tip => !replica.graph.settledBy received tip

namespace Briefed

/-- A peer that has told of no tips is sent nothing yet. -/
theorem sendList_eq_nil (briefed : replica.Briefed [] session) : session.sendList = [] := by
  rw [List.eq_nil_iff_forall_not_mem]
  intro event mem
  obtain ⟨-, -, tip, none, -⟩ := briefed.mem_sendList.mp mem
  exact List.not_mem_nil none

theorem empty (noTips : session.workingTips = replica.tips) (unlisted : session.sendList = [])
    (unqueued : session.queued = ∅) (unmarked : session.marks = ∅) :
    replica.Briefed [] session where
  filed := ⟨by simp [unlisted], by simp [unlisted, unqueued]⟩
  marks hash := by simp [unmarked]
  mem_sendList := by simp [unlisted, Extends]
  workingTips := by simp [noTips, settledBy]

theorem applyTip (briefed : replica.Briefed received session) (linked : replica.graph.Linked)
    (tipsNodup : replica.tips.Nodup) (tip : EventHash) :
    replica.Briefed (received ++ [tip]) (replica.applyTip session tip) := by
  have extends_iff {hash : EventHash} : replica.graph.Extends (received ++ [tip]) hash ↔
      replica.graph.Extends received hash ∨
        hash ∈ replica.graph.strictSelfDescendants tip := by
    rw [linked.mem_strictSelfDescendants]
    simp [Extends, or_and_right, exists_or]
  have settled_iff (hash : EventHash) : replica.graph.settledBy (received ++ [tip]) hash =
      (replica.graph.settledBy received hash || replica.graph.settledBy [tip] hash) := by
    simp [settledBy]
  unfold Replica.applyTip
  split
  · rename_i held
    have nodup : session.workingTips.Nodup := briefed.workingTips ▸ tipsNodup.filter _
    have noted := Session.workingTips_notePeerHas tip nodup
    have filedNoted : (session.notePeerHas tip).Filed := briefed.filed.congr rfl rfl
    obtain ⟨filed, listed⟩ := foldl_applyDescendant (replica.graph.strictSelfDescendants tip)
      linked filedNoted fun event mem => (briefed.mem_sendList.mp mem).1
    refine ⟨filed, ?_, ?_, ?_⟩
    · intro hash
      rw [foldl_applyDescendant_marks, Session.getElem?_marks_notePeerHas, briefed.marks]
      by_cases same : tip = hash
      · subst same
        simp [held]
      · simp [same, Ne.symm same]
    · intro event
      rw [listed, Session.notePeerHas_sendList, briefed.mem_sendList, extends_iff]
      tauto
    · rw [foldl_applyDescendant_workingTips (noted ▸ nodup.filter _), noted, briefed.workingTips,
        List.filter_filter, List.filter_filter]
      refine List.filter_congr fun hash _ => ?_
      rw [settled_iff]
      cases replica.graph.settledBy received hash <;>
        cases extended : (replica.graph.strictSelfDescendants tip).contains hash <;>
        simp_all [settledBy, bne]
  · rename_i unheld
    have childless {hash : EventHash} : hash ∉ replica.graph.strictSelfDescendants tip := by
      rw [linked.mem_strictSelfDescendants]
      intro path
      obtain ⟨_, recorded, _⟩ := Relation.TransGen.head'_iff.mp path
      exact unheld recorded.mem
    refine ⟨briefed.filed, ?_, ?_, ?_⟩
    · intro hash
      rw [briefed.marks]
      by_cases same : hash = tip
      · simp [same, unheld]
      · simp [same]
    · intro event
      rw [briefed.mem_sendList, extends_iff, or_iff_left childless]
    · rw [briefed.workingTips]
      refine List.filter_congr fun hash _ => ?_
      rw [settled_iff]
      simp [settledBy, unheld]

theorem foldl_applyTip (linked : replica.graph.Linked) (tipsNodup : replica.tips.Nodup)
    {begun : Session ε} (briefed : replica.Briefed [] begun) (received : List EventHash) :
    replica.Briefed received (received.foldl replica.applyTip begun) := by
  induction received using List.reverseRecOn with
  | nil => exact briefed
  | append_singleton earlier tip ih =>
    rw [List.foldl_concat]
    exact ih.applyTip linked tipsNodup tip

end Briefed

omit [DagEvent ε] in
theorem applyBoolean_of_true {answer : EventHash × Bool} (yes : answer.2 = true)
    (held : answer.1 ∈ replica.graph) :
    replica.applyBoolean session answer = session.notePeerHas answer.1 :=
  if_pos (Bool.and_eq_true_iff.mpr ⟨yes, held⟩)

omit [DagEvent ε] in
theorem applyBoolean_of_not {answer : EventHash × Bool}
    (useless : ¬ (answer.2 = true ∧ answer.1 ∈ replica.graph)) :
    replica.applyBoolean session answer = session :=
  if_neg fun both => useless (Bool.and_eq_true_iff.mp both)

omit [DagEvent ε] in
/-- The peer has answered yes on this held hash. -/
def affirms (replica : Replica ε) (answers : List (EventHash × Bool)) (hash : EventHash) : Bool :=
  answers.any fun answer => answer.1 == hash && answer.2 && hash ∈ replica.graph

omit [DagEvent ε] in
theorem affirms_iff {answers : List (EventHash × Bool)} :
    replica.affirms answers hash ↔ (hash, true) ∈ answers ∧ hash ∈ replica.graph := by
  simp only [affirms, List.any_eq_true, Bool.and_eq_true, beq_iff_eq, decide_eq_true_eq]
  constructor
  · rintro ⟨⟨_, _⟩, mem, ⟨rfl, rfl⟩, held⟩
    exact ⟨mem, held⟩
  · rintro ⟨mem, held⟩
    exact ⟨_, mem, ⟨rfl, rfl⟩, held⟩

/-- What the answers of the peer change in a session. -/
structure Answered (replica : Replica ε) (answers : List (EventHash × Bool))
    (before after : Session ε) : Prop where
  sentTips : after.sentTips = before.sentTips
  sendList : after.sendList = before.sendList
  queued : after.queued = before.queued
  marks : ∀ hash : EventHash, after.marks[hash]? =
    if replica.affirms answers hash then some .peerHas else before.marks[hash]?
  workingTips : after.workingTips =
    before.workingTips.filter fun tip => !replica.affirms answers tip

omit [DagEvent ε] in
theorem foldl_applyBoolean (nodup : session.workingTips.Nodup)
    (answers : List (EventHash × Bool)) :
    replica.Answered answers session (answers.foldl replica.applyBoolean session) := by
  induction answers generalizing session with
  | nil => exact ⟨rfl, rfl, rfl, fun _ => rfl, by simp [affirms]⟩
  | cons answer rest ih =>
    have affirms_cons (hash : EventHash) : replica.affirms (answer :: rest) hash =
        (answer.1 == hash && answer.2 && decide (hash ∈ replica.graph) ||
          replica.affirms rest hash) := List.any_cons
    rw [List.foldl_cons]
    by_cases useful : answer.2 = true ∧ answer.1 ∈ replica.graph
    · obtain ⟨yes, held⟩ := useful
      rw [applyBoolean_of_true yes held]
      have noted := Session.workingTips_notePeerHas answer.1 nodup
      have later := ih (noted ▸ nodup.filter _)
      refine ⟨later.sentTips, later.sendList, later.queued, ?_, ?_⟩
      · intro hash
        rw [later.marks, Session.getElem?_marks_notePeerHas, affirms_cons]
        by_cases same : answer.1 = hash
        · subst same
          simp [yes, held]
        · simp [same]
      · rw [later.workingTips, noted, List.filter_filter]
        refine List.filter_congr fun tip _ => ?_
        rw [affirms_cons]
        by_cases same : answer.1 = tip
        · subst same
          simp [yes, held]
        · have differs : (answer.1 == tip) = false := beq_eq_false_iff_ne.mpr same
          have kept : (tip != answer.1) = true := bne_iff_ne.mpr (Ne.symm same)
          simp [differs, kept]
    · rw [applyBoolean_of_not useful]
      have later := ih nodup
      have skipped (hash : EventHash) :
          replica.affirms (answer :: rest) hash = replica.affirms rest hash := by
        rw [affirms_cons, Bool.or_eq_right_iff_imp]
        simp only [Bool.and_eq_true, beq_iff_eq, decide_eq_true_eq]
        rintro ⟨⟨rfl, yes⟩, held⟩
        exact (useful ⟨yes, held⟩).elim
      refine ⟨later.sentTips, later.sendList, later.queued, ?_, ?_⟩
      · intro hash
        rw [later.marks, skipped]
      · rw [later.workingTips]
        exact List.filter_congr fun tip _ => by rw [skipped]

end Replica
end Hashgraph
