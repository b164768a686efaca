import Hashgraph.Proofs.Exchange.Briefing
import Hashgraph.Proofs.Graph.Pruning

/-! The search for missing events. A walk lists unexpired events on the chain below its cursor and
stops at the first that the peer is known to have. It leaves the marks as they were but for a
single search mark, on an event that the peer is known to have. -/

namespace Hashgraph.Replica

open DagEvent ShadowGraph

variable {ε : Type} [DagEvent ε] {replica : Replica ε} {session : Session ε} {hash : EventHash}
  {cursor : Option EventHash}

/-- The peer is known to have what it has shown and the ancestors of that. -/
theorem isKnownToPeer_iff (linked : replica.graph.Linked) : replica.isKnownToPeer session hash ↔
    ∃ shown, Relation.ReflTransGen replica.graph.Begets hash shown ∧
      session.marks[shown]? = some .peerHas := by
  simp only [isKnownToPeer, anyDescendant_eq, Bool.or_eq_true, List.any_eq_true,
    linked.mem_descendants, Session.isMarked_iff]
  constructor
  · rintro (marked | ⟨shown, path, marked⟩)
    · exact ⟨hash, .refl, marked⟩
    · exact ⟨shown, path.to_reflTransGen, marked⟩
  · rintro ⟨shown, path, marked⟩
    rcases Relation.reflTransGen_iff_eq_or_transGen.mp path with rfl | strict
    · exact .inl marked
    · exact .inr ⟨shown, strict, marked⟩

omit [DagEvent ε] in
/-- Knowledge depends on the marks alone. -/
theorem isKnownToPeer_congr {other : Session ε} (same : other.marks = session.marks) :
    replica.isKnownToPeer other hash = replica.isKnownToPeer session hash := by
  have marked : other.isMarked .peerHas = session.isMarked .peerHas := by
    funext hash
    rw [Session.isMarked, Session.isMarked, same]
  rw [isKnownToPeer, isKnownToPeer, marked]

omit [DagEvent ε] in
theorem mem_enqueue_of_mem {event other : ε} (mem : event ∈ session.sendList) :
    event ∈ (session.enqueue hash other).sendList := by
  unfold Session.enqueue
  split
  · exact mem
  · exact List.mem_append_left _ mem

theorem walk_absent (absent : replica.graph.get? hash = none) :
    replica.walk session (some hash) = session := by
  rw [walk]
  split
  · rfl
  · rename_i shadow held
    rw [absent] at held
    contradiction

theorem walk_held {shadow : Shadow ε} (held : replica.graph.get? hash = some shadow) :
    replica.walk session (some hash) =
      if session.isMarked .search hash || shadow.isExpired replica.watermark then session
      else if replica.isKnownToPeer session hash then session.setMark .search hash
      else if hash ∈ session.queued then session
      else replica.walk (session.enqueue hash shadow.event)
        (shadow.selfParent.map Descriptor.hash) := by
  rw [walk]
  split
  · rename_i absent
    rw [held] at absent
    contradiction
  · rename_i other found
    rw [held] at found
    cases found
    rfl

theorem mem_walk_of_mem {event : ε} (mem : event ∈ session.sendList) :
    event ∈ (replica.walk session cursor).sendList := by
  fun_induction replica.walk session cursor with
  | case1 | case2 | case3 | case4 | case5 => exact mem
  | case6 session hash shadow found active unknown fresh ih => exact ih (mem_enqueue_of_mem mem)

/-- What a walk adds to the send list. -/
structure Missing (replica : Replica ε) (session : Session ε) (cursor : Option EventHash)
    (event : ε) : Prop where
  holds : replica.Holds event
  unexpired : ¬ generation event ≤ replica.watermark
  unknown : ¬ replica.isKnownToPeer session (DagEvent.hash event)
  onChain : replica.graph.OnChain cursor (DagEvent.hash event)

theorem missing_of_mem_walk (linked : replica.graph.Linked) {event : ε}
    (mem : event ∈ (replica.walk session cursor).sendList) :
    event ∈ session.sendList ∨ replica.Missing session cursor event := by
  fun_induction replica.walk session cursor with
  | case1 | case2 | case3 | case4 | case5 => exact .inl mem
  | case6 session hash shadow found active unknown fresh ih =>
    have held := event?_of_get? found
    obtain ⟨holds, own⟩ := (holds_iff linked).mp held
    subst own
    rcases ih mem with listed | missing
    · rw [Session.enqueue, if_neg fresh, List.mem_append, List.mem_singleton] at listed
      rcases listed with earlier | rfl
      · exact .inl earlier
      · refine .inr ⟨holds, ?_, unknown, (onChain_some held).mpr (.inl rfl)⟩
        intro expired
        exact active (Bool.or_eq_true_iff.mpr (.inr (decide_eq_true expired)))
    · refine .inr ⟨missing.holds, missing.unexpired, ?_, (onChain_some held).mpr (.inr missing.onChain)⟩
      rw [← isKnownToPeer_congr Session.enqueue_marks]
      exact missing.unknown

/-- A walk sets at most one mark, on its chain, where the peer is known to have the event. -/
theorem walk_marks (replica : Replica ε) (session : Session ε) (cursor : Option EventHash) :
    (replica.walk session cursor).marks = session.marks ∨ ∃ hash,
      replica.graph.OnChain cursor hash ∧ replica.isKnownToPeer session hash ∧
        (replica.walk session cursor).marks = session.marks.insert hash .search := by
  fun_induction replica.walk session cursor with
  | case1 | case2 | case3 | case5 => exact .inl rfl
  | case4 session hash shadow found active known =>
    exact .inr ⟨hash, (onChain_some (event?_of_get? found)).mpr (.inl rfl), known, rfl⟩
  | case6 session hash shadow found active unknown fresh ih =>
    rw [Session.enqueue_marks] at ih
    refine ih.imp_right ?_
    rintro ⟨last, onChain, known, marks⟩
    refine ⟨last, (onChain_some (event?_of_get? found)).mpr (.inr onChain), ?_, marks⟩
    rwa [isKnownToPeer_congr Session.enqueue_marks] at known

@[simp] theorem walk_workingTips :
    (replica.walk session cursor).workingTips = session.workingTips := by
  fun_induction replica.walk session cursor with
  | case1 | case2 | case3 | case5 => rfl
  | case4 => rfl
  | case6 session hash shadow found active unknown fresh ih =>
    rw [ih, Session.enqueue_workingTips]

/-- The walks from these tips, one after the other. -/
def walkFrom (replica : Replica ε) (session : Session ε) (tips : List EventHash) : Session ε :=
  tips.foldl (fun session tip => replica.walk session (some tip)) session

theorem walkFrom_concat (tips : List EventHash) (tip : EventHash) :
    replica.walkFrom session (tips ++ [tip]) =
      replica.walk (replica.walkFrom session tips) (some tip) := List.foldl_concat ..

theorem mem_walkFrom_of_mem (tips : List EventHash) {event : ε} (mem : event ∈ session.sendList) :
    event ∈ (replica.walkFrom session tips).sendList := by
  induction tips using List.reverseRecOn with
  | nil => exact mem
  | append_singleton tips tip ih =>
    rw [walkFrom_concat]
    exact mem_walk_of_mem ih

def walkAll (replica : Replica ε) (session : Session ε) : Session ε :=
  replica.walkFrom session session.workingTips

theorem finish_eq_ok {sendList : List ε} {after : Session ε} :
    replica.finish session = .ok sendList after ↔ session.phase = .booleansExchanged ∧
      sendList = (replica.walkAll session).sendList.mergeSort
        (fun first second => generation first ≤ generation second) ∧
      after = { replica.walkAll session with sendList, phase := .finished } := by
  unfold finish
  split
  · rename_i ready
    rw [and_iff_right ready]
    constructor
    · intro finished
      injection finished with listed left
      subst listed left
      exact ⟨rfl, rfl⟩
    · rintro ⟨rfl, rfl⟩
      rfl
  · rename_i early
    simp [early]

end Hashgraph.Replica
