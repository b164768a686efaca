import Mathlib.Data.List.Nodup
import Hashgraph.Event.Basic
import Hashgraph.Exchange.Session

/-! Sessions as records. The send list of a session and its set of queued hashes are two forms of
one thing; a mark, a queued event or a settled tip each leaves the other parts alone. -/

namespace Hashgraph.Session

open DagEvent

variable {ε : Type} {session : Session ε} {tip hash : EventHash} {mark : Mark} {event : ε}

theorem isMarked_iff : session.isMarked mark hash ↔ session.marks[hash]? = some mark :=
  decide_eq_true_iff

theorem getElem?_marks_setMark (other : EventHash) : (session.setMark mark hash).marks[other]? =
    if hash = other then some mark else session.marks[other]? := by
  simp only [setMark, Std.ExtTreeMap.getElem?_insert, Std.LawfulEqCmp.compare_eq_iff_eq]

theorem getElem?_marks_notePeerHas (other : EventHash) :
    (session.notePeerHas hash).marks[other]? =
      if hash = other then some .peerHas else session.marks[other]? :=
  getElem?_marks_setMark other

@[simp] theorem setMark_queued : (session.setMark mark hash).queued = session.queued := rfl

@[simp] theorem setMark_sendList : (session.setMark mark hash).sendList = session.sendList := rfl

@[simp] theorem setMark_workingTips :
    (session.setMark mark hash).workingTips = session.workingTips := rfl

@[simp] theorem removeWorkingTip_marks : (session.removeWorkingTip tip).marks = session.marks := rfl

@[simp] theorem removeWorkingTip_queued :
    (session.removeWorkingTip tip).queued = session.queued := rfl

@[simp] theorem removeWorkingTip_sendList :
    (session.removeWorkingTip tip).sendList = session.sendList := rfl

@[simp] theorem removeWorkingTip_sentTips :
    (session.removeWorkingTip tip).sentTips = session.sentTips := rfl

@[simp] theorem removeWorkingTip_receivedTips :
    (session.removeWorkingTip tip).receivedTips = session.receivedTips := rfl

@[simp] theorem notePeerHas_queued : (session.notePeerHas tip).queued = session.queued := rfl

@[simp] theorem notePeerHas_sendList : (session.notePeerHas tip).sendList = session.sendList := rfl

@[simp] theorem enqueue_marks : (session.enqueue hash event).marks = session.marks := by
  unfold enqueue
  split <;> rfl

@[simp] theorem enqueue_workingTips :
    (session.enqueue hash event).workingTips = session.workingTips := by
  unfold enqueue
  split <;> rfl

@[simp] theorem enqueue_sentTips : (session.enqueue hash event).sentTips = session.sentTips := by
  unfold enqueue
  split <;> rfl

@[simp] theorem enqueue_receivedTips :
    (session.enqueue hash event).receivedTips = session.receivedTips := by
  unfold enqueue
  split <;> rfl

theorem workingTips_removeWorkingTip (nodup : session.workingTips.Nodup) :
    (session.removeWorkingTip tip).workingTips = session.workingTips.filter (· != tip) :=
  nodup.erase_eq_filter tip

theorem workingTips_notePeerHas (tip : EventHash) (nodup : session.workingTips.Nodup) :
    (session.notePeerHas tip).workingTips = session.workingTips.filter (· != tip) :=
  nodup.erase_eq_filter tip

variable [DagEvent ε]

/-- The send list holds one event for each queued hash. -/
structure Filed (session : Session ε) : Prop where
  nodup : (session.sendList.map DagEvent.hash).Nodup
  mem_queued : ∀ {hash : EventHash},
    hash ∈ session.queued ↔ ∃ event ∈ session.sendList, DagEvent.hash event = hash

namespace Filed

theorem congr {session' : Session ε} (filed : session.Filed)
    (sendList : session'.sendList = session.sendList) (queued : session'.queued = session.queued) :
    session'.Filed where
  nodup := sendList ▸ filed.nodup
  mem_queued := by
    rw [sendList, queued]
    exact filed.mem_queued

theorem enqueue (filed : session.Filed) (own : DagEvent.hash event = hash) :
    (session.enqueue hash event).Filed := by
  unfold Session.enqueue
  split
  · exact filed
  · rename_i fresh
    rw [filed.mem_queued] at fresh
    constructor
    · rw [List.map_append, List.map_singleton, own, List.nodup_append]
      refine ⟨filed.nodup, List.nodup_singleton _, ?_⟩
      rintro _ mem _ last rfl
      rw [List.mem_singleton.mp last] at mem
      exact fresh (List.mem_map.mp mem)
    · intro other
      simp only [Std.ExtTreeSet.mem_insert, Std.LawfulEqCmp.compare_eq_iff_eq, filed.mem_queued,
        List.mem_append, List.mem_singleton]
      constructor
      · rintro (rfl | ⟨earlier, mem, same⟩)
        · exact ⟨event, .inr rfl, own⟩
        · exact ⟨earlier, .inl mem, same⟩
      · rintro ⟨other, mem | rfl, rfl⟩
        · exact .inr ⟨other, mem, rfl⟩
        · exact .inl own.symm

/-- After an event is queued it is listed, be it that it was listed before. -/
theorem mem_enqueue (filed : session.Filed)
    (same : ∀ other ∈ session.sendList, DagEvent.hash other = hash → other = event) {other : ε} :
    other ∈ (session.enqueue hash event).sendList ↔ other ∈ session.sendList ∨ other = event := by
  unfold Session.enqueue
  split
  · rename_i queued
    obtain ⟨earlier, mem, own⟩ := filed.mem_queued.mp queued
    obtain rfl := same earlier mem own
    exact (or_iff_left_of_imp fun last => last ▸ mem).symm
  · rw [List.mem_append, List.mem_singleton]

end Filed
end Hashgraph.Session
