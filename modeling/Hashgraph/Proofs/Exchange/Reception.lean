import Hashgraph.Proofs.Exchange.Protocol
import Hashgraph.Proofs.Replica.Validity

/-! What the peer's tips tell, whatever events say. The first phase has a closed form, in which the
received hashes figure as a set. Sessions that heard the same hashes in another order, or more often,
are alike: only the order of what they list differs. Whatever comes later keeps them alike. -/

namespace Hashgraph

open DagEvent ShadowGraph Replica

variable {ε : Type}

namespace Session

/-- Two sessions that differ at most in the received tips and in the order of what they list. -/
structure Alike (session other : Session ε) : Prop where
  phase : other.phase = session.phase
  sentTips : other.sentTips = session.sentTips
  workingTips : other.workingTips = session.workingTips
  queued : other.queued = session.queued
  marks : other.marks = session.marks
  sendList : other.sendList.Perm session.sendList

namespace Alike

variable {session other : Session ε} {hash : EventHash}

theorem setMark (alike : session.Alike other) (mark : Mark) (hash : EventHash) :
    (session.setMark mark hash).Alike (other.setMark mark hash) where
  phase := alike.phase
  sentTips := alike.sentTips
  workingTips := alike.workingTips
  queued := alike.queued
  marks := congrArg (·.insert hash mark) alike.marks
  sendList := alike.sendList

theorem removeWorkingTip (alike : session.Alike other) (hash : EventHash) :
    (session.removeWorkingTip hash).Alike (other.removeWorkingTip hash) where
  phase := alike.phase
  sentTips := alike.sentTips
  workingTips := congrArg (·.erase hash) alike.workingTips
  queued := alike.queued
  marks := alike.marks
  sendList := alike.sendList

theorem notePeerHas (alike : session.Alike other) (hash : EventHash) :
    (session.notePeerHas hash).Alike (other.notePeerHas hash) :=
  (alike.setMark .peerHas hash).removeWorkingTip hash

theorem enqueue (alike : session.Alike other) (hash : EventHash) (event : ε) :
    (session.enqueue hash event).Alike (other.enqueue hash event) := by
  unfold Session.enqueue
  rw [alike.queued]
  split
  · exact alike
  · refine ⟨alike.phase, alike.sentTips, alike.workingTips, ?_, alike.marks, ?_⟩
    · rfl
    · exact alike.sendList.append_right [event]

/-- Steps that keep sessions alike do so one after the other. -/
theorem foldl {α : Type} {step : Session ε → α → Session ε}
    (keeps : ∀ {session other : Session ε} (item : α), session.Alike other →
      (step session item).Alike (step other item)) (items : List α) (alike : session.Alike other) :
    (items.foldl step session).Alike (items.foldl step other) := by
  induction items generalizing session other with
  | nil => exact alike
  | cons item rest ih => exact ih (keeps item alike)

theorem applyBoolean (replica : Replica ε) (answer : EventHash × Bool)
    (alike : session.Alike other) :
    (replica.applyBoolean session answer).Alike (replica.applyBoolean other answer) := by
  unfold Replica.applyBoolean
  split
  · exact alike.notePeerHas _
  · exact alike

variable [DagEvent ε]

theorem applyDescendant (replica : Replica ε) (hash : EventHash) (alike : session.Alike other) :
    (replica.applyDescendant session hash).Alike (replica.applyDescendant other hash) := by
  unfold Replica.applyDescendant
  split
  · exact alike.removeWorkingTip hash
  · split
    · exact alike.removeWorkingTip hash
    · exact (alike.enqueue hash _).removeWorkingTip hash

theorem applyTip (replica : Replica ε) (tip : EventHash) (alike : session.Alike other) :
    (replica.applyTip session tip).Alike (replica.applyTip other tip) := by
  unfold Replica.applyTip
  split
  · exact (alike.notePeerHas tip).foldl (applyDescendant replica) _
  · exact alike

theorem walk (replica : Replica ε) (cursor : Option EventHash) (alike : session.Alike other) :
    (replica.walk session cursor).Alike (replica.walk other cursor) := by
  have marked {session other : Session ε} (alike : session.Alike other) (hash : EventHash) :
      other.isMarked .search hash = session.isMarked .search hash := by
    rw [Session.isMarked, Session.isMarked, alike.marks]
  fun_induction replica.walk session cursor generalizing other with
  | case1 session =>
    rw [Replica.walk]
    exact alike
  | case2 session hash absent =>
    rw [walk_absent absent]
    exact alike
  | case3 session hash shadow held ended =>
    rw [walk_held held, marked alike, if_pos ended]
    exact alike
  | case4 session hash shadow held active known =>
    rw [walk_held held, marked alike, if_neg active, isKnownToPeer_congr alike.marks, if_pos known]
    exact alike.setMark .search hash
  | case5 session hash shadow held active unknown queued =>
    rw [walk_held held, marked alike, if_neg active, isKnownToPeer_congr alike.marks,
      if_neg unknown, alike.queued, if_pos queued]
    exact alike
  | case6 session hash shadow held active unknown fresh ih =>
    rw [walk_held held, marked alike, if_neg active, isKnownToPeer_congr alike.marks,
      if_neg unknown, alike.queued, if_neg fresh]
    exact ih (alike.enqueue hash shadow.event)

theorem walkAll (replica : Replica ε) (alike : session.Alike other) :
    (replica.walkAll session).Alike (replica.walkAll other) := by
  unfold Replica.walkAll Replica.walkFrom
  rw [alike.workingTips]
  exact alike.foldl (fun tip => walk replica (some tip)) _

end Alike
end Session

/-- What a deed has told the peer, up to the order of listed events. Answers are on the received tips,
which each session has in its own order. -/
inductive Deed.Alike : Deed ε → Deed ε → Prop
  | sentTips (tips : List EventHash) : Alike (.sentTips tips) (.sentTips tips)
  | tookTips (received : List EventHash) : Alike (.tookTips received) (.tookTips received)
  | sentBooleans (answers others : List Bool) : Alike (.sentBooleans answers) (.sentBooleans others)
  | tookBooleans (received : List Bool) : Alike (.tookBooleans received) (.tookBooleans received)
  | listed {events others : List ε} (perm : others.Perm events) :
    Alike (.listed events) (.listed others)

/-- Two results of a phase: both are answers so related, or both are the same fault. -/
inductive Replica.PhaseResult.Alike {α : Type} (told : α → α → Prop) :
    PhaseResult ε α → PhaseResult ε α → Prop
  | ok {answer other : α} {session session' : Session ε} (answers : told answer other)
    (alike : session.Alike session') : Alike told (.ok answer session) (.ok other session')
  | error {session session' : Session ε} (fault : Fault) (alike : session.Alike session') :
    Alike told (.error fault session) (.error fault session')

theorem Replica.PhaseResult.Alike.map {α β : Type} {told : α → α → Prop} {tells : β → β → Prop}
    {answer : α → β} {result other : PhaseResult ε α} (alike : Alike told result other)
    (each : ∀ {first second : α}, told first second → tells (answer first) (answer second)) :
    Alike tells (result.map answer) (other.map answer) := by
  cases alike with
  | ok answers alike => exact .ok (each answers) alike
  | error fault alike => exact .error fault alike

namespace Session.Alike

variable {session other : Session ε}

theorem sendTips (replica : Replica ε) (alike : session.Alike other) :
    PhaseResult.Alike Eq (replica.sendTips session) (replica.sendTips other) := by
  unfold Replica.sendTips
  rw [alike.phase, alike.sentTips]
  split
  · exact .error _ alike
  · split
    · exact .error _ alike
    · exact .ok rfl ⟨rfl, rfl, alike.workingTips, alike.queued, alike.marks, alike.sendList⟩

theorem sendBooleans (replica : Replica ε) (alike : session.Alike other) :
    PhaseResult.Alike (fun _ _ => True) (replica.sendBooleans session)
      (replica.sendBooleans other) := by
  unfold Replica.sendBooleans
  rw [alike.phase]
  split
  · exact .ok trivial alike
  · exact .ok trivial alike
  · exact .error _ alike
  · exact .error _ alike

theorem receiveBooleans (replica : Replica ε) (received : List Bool) (alike : session.Alike other) :
    PhaseResult.Alike Eq (replica.receiveBooleans session received)
      (replica.receiveBooleans other received) := by
  unfold Replica.receiveBooleans
  rw [alike.phase, alike.sentTips]
  split
  · split
    · exact .error _ alike
    · rename_i sent known
      split
      · have applied := alike.foldl (applyBoolean replica) (sent.zip received)
        exact .ok rfl ⟨rfl, applied.sentTips, applied.workingTips, applied.queued, applied.marks,
          applied.sendList⟩
      · exact .error _ alike
  · exact .error _ alike

variable [DagEvent ε]

theorem receiveTips (replica : Replica ε) (received : List EventHash)
    (alike : session.Alike other) :
    PhaseResult.Alike Eq (replica.receiveTips session received)
      (replica.receiveTips other received) := by
  unfold Replica.receiveTips
  by_cases idle : session.phase = .idle
  · rw [if_pos idle, if_pos (alike.phase.trans idle)]
    have begun : Session.Alike
        { session with receivedTips := received, workingTips := replica.tips }
        { other with receivedTips := received, workingTips := replica.tips } :=
      ⟨alike.phase, alike.sentTips, rfl, alike.queued, alike.marks, alike.sendList⟩
    have applied := begun.foldl (applyTip replica) received
    exact .ok rfl ⟨rfl, applied.sentTips, applied.workingTips, applied.queued, applied.marks,
      applied.sendList⟩
  · rw [if_neg idle, if_neg fun same => idle (alike.phase.symm.trans same)]
    exact .error _ alike

theorem finish (replica : Replica ε) (alike : session.Alike other) :
    PhaseResult.Alike (fun events others => others.Perm events) (replica.finish session)
      (replica.finish other) := by
  unfold Replica.finish
  rw [alike.phase]
  split
  · have walked := alike.walkAll replica
    have sorted : List.Perm
        ((replica.walkAll other).sendList.mergeSort fun first second =>
          generation first ≤ generation second)
        ((replica.walkAll session).sendList.mergeSort fun first second =>
          generation first ≤ generation second) :=
      (List.mergeSort_perm ..).trans (walked.sendList.trans (List.mergeSort_perm ..).symm)
    exact .ok sorted ⟨rfl, walked.sentTips, walked.workingTips, walked.queued, walked.marks, sorted⟩
  · exact .error _ alike

/-- A call does the same to sessions that are alike. -/
theorem run (call : PhaseCall) (replica : Replica ε) (alike : session.Alike other) :
    PhaseResult.Alike Deed.Alike (call.run replica session) (call.run replica other) := by
  cases call with
  | sendTips =>
    refine (alike.sendTips replica).map ?_
    rintro tips _ rfl
    exact .sentTips tips
  | receiveTips received => exact (alike.receiveTips replica received).map fun _ => .tookTips received
  | sendBooleans => exact (alike.sendBooleans replica).map fun _ => .sentBooleans ..
  | receiveBooleans received =>
    exact (alike.receiveBooleans replica received).map fun _ => .tookBooleans received
  | finish => exact (alike.finish replica).map .listed

end Session.Alike

/-- A call that succeeds and leaves a session idle has at most sent the tips. -/
theorem PhaseCall.untouched_of_run [DagEvent ε] {call : PhaseCall} {replica : Replica ε}
    {session after : Session ε} {deed : Deed ε} (ran : call.run replica session = .ok deed after)
    (idle : after.phase = .idle) (untouched : session.phase = .idle → session.Untouched) :
    after.Untouched := by
  cases call with
  | sendTips =>
    obtain ⟨tips, sent, rfl⟩ := PhaseResult.map_eq_ok.mp ran
    obtain ⟨-, -, -, rfl⟩ := sendTips_eq_ok.mp sent
    obtain ⟨phase, sendList, queued, marks⟩ := untouched idle
    exact ⟨phase, sendList, queued, marks⟩
  | receiveTips received =>
    obtain ⟨_, taken, rfl⟩ := PhaseResult.map_eq_ok.mp ran
    obtain ⟨-, rfl⟩ := receiveTips_eq_ok.mp taken
    contradiction
  | sendBooleans =>
    obtain ⟨answers, answered, rfl⟩ := PhaseResult.map_eq_ok.mp ran
    obtain ⟨-, -, rfl⟩ := sendBooleans_eq_ok.mp answered
    exact untouched idle
  | receiveBooleans received =>
    obtain ⟨_, taken, rfl⟩ := PhaseResult.map_eq_ok.mp ran
    obtain ⟨-, _, -, -, rfl⟩ := receiveBooleans_eq_ok.mp taken
    contradiction
  | finish =>
    obtain ⟨events, finished, rfl⟩ := PhaseResult.map_eq_ok.mp ran
    obtain ⟨-, -, rfl⟩ := finish_eq_ok.mp finished
    contradiction

namespace Course

structure Alike (course other : Course ε) : Prop where
  replica : other.replica = course.replica
  session : course.session.Alike other.session
  deeds : List.Forall₂ Deed.Alike course.deeds other.deeds

variable [DagEvent ε] {course other : Course ε}

theorem Alike.act (alike : course.Alike other) (act : Act ε) :
    (course.act act).Alike (other.act act) := by
  cases act with
  | change move => exact ⟨congrArg move alike.replica, alike.session, alike.deeds⟩
  | call call =>
    have results := alike.session.run call course.replica
    unfold Course.act
    dsimp only
    rw [alike.replica]
    generalize call.run course.replica course.session = result at results ⊢
    generalize call.run course.replica other.session = result' at results ⊢
    cases results with
    | ok deeds sessions =>
      exact ⟨rfl, sessions, List.rel_append alike.deeds (.cons deeds .nil)⟩
    | error fault sessions => exact ⟨rfl, sessions, alike.deeds⟩

theorem Alike.actAll (alike : course.Alike other) (acts : List (Act ε)) :
    (course.actAll acts).Alike (other.actAll acts) := by
  induction acts generalizing course other with
  | nil => exact alike
  | cons act rest ih => exact ih (alike.act act)

/-- A session that is still idle may have sent its tips, but nothing else has happened to it. -/
theorem untouched_of_idle {replica : Replica ε} {localName peerName : String} {role : Role}
    {acts : List (Act ε)} (idle : (({ replica, session := .start localName peerName role } :
      Course ε).actAll acts).session.phase = .idle) :
    (({ replica, session := .start localName peerName role } :
      Course ε).actAll acts).session.Untouched := by
  induction acts using List.reverseRecOn with
  | nil => exact Session.untouched_start localName peerName role
  | append_singleton acts last ih =>
    rw [Course.actAll, List.foldl_concat, ← Course.actAll] at idle ⊢
    generalize ({ replica, session := .start localName peerName role } : Course ε).actAll acts =
      course at ih idle ⊢
    cases last with
    | change move => exact ih idle
    | call call =>
      unfold Course.act at idle ⊢
      dsimp only at idle ⊢
      cases ran : call.run course.replica course.session with
      | error fault after =>
        rw [ran] at idle
        rw [PhaseCall.eq_of_run_eq_error ran] at idle ⊢
        exact ih idle
      | ok deed after =>
        rw [ran] at idle
        exact PhaseCall.untouched_of_run ran idle ih

end Course

namespace Replica

variable [DagEvent ε] {replica : Replica ε} {session : Session ε} {received : List EventHash}

namespace Briefed

theorem mem_queued (briefed : replica.Briefed received session) {hash : EventHash} :
    hash ∈ session.queued ↔ ∃ event, replica.Holds event ∧ DagEvent.hash event = hash ∧
      ¬ generation event ≤ replica.watermark ∧ replica.graph.Extends received hash := by
  rw [briefed.filed.mem_queued]
  constructor
  · rintro ⟨event, listed, rfl⟩
    obtain ⟨holds, unexpired, extending⟩ := briefed.mem_sendList.mp listed
    exact ⟨event, holds, rfl, unexpired, extending⟩
  · rintro ⟨event, holds, rfl, unexpired, extending⟩
    exact ⟨event, briefed.mem_sendList.mpr ⟨holds, unexpired, extending⟩, rfl⟩

theorem mem_workingTips (briefed : replica.Briefed received session) (valid : replica.Valid)
    {tip : EventHash} : tip ∈ session.workingTips ↔
      tip ∈ replica.tips ∧ tip ∉ received ∧ ¬ replica.graph.Extends received tip := by
  rw [briefed.workingTips, List.mem_filter, Bool.not_eq_true', ← Bool.not_eq_true,
    valid.linked.settledBy_iff, not_or, not_and]
  exact and_congr_right fun mem => and_congr_left' (imp_not_comm.trans (imp_iff_right (valid.mem_of_tip mem)))

/-- In what the first phase leaves, the received hashes figure as a set. -/
theorem alike {again : List EventHash} {after after' : Session ε}
    (briefed : replica.Briefed received after) (briefedAgain : replica.Briefed again after')
    (same : ∀ hash, hash ∈ again ↔ hash ∈ received) (phase : after'.phase = after.phase)
    (sentTips : after'.sentTips = after.sentTips) : after.Alike after' := by
  have extends_iff (hash : EventHash) :
      replica.graph.Extends again hash ↔ replica.graph.Extends received hash := by
    simp only [Extends, same]
  refine ⟨phase, sentTips, ?_, ?_, ?_, ?_⟩
  · rw [briefedAgain.workingTips, briefed.workingTips]
    refine List.filter_congr fun tip _ => congrArg (!·) ?_
    rw [settledBy, settledBy, Bool.eq_iff_iff, List.any_eq_true, List.any_eq_true]
    simp only [same]
  · refine Std.ExtTreeSet.ext_mem fun hash => ?_
    rw [briefedAgain.mem_queued, briefed.mem_queued, extends_iff]
  · refine Std.ExtTreeMap.ext_getElem? fun hash => ?_
    rw [briefedAgain.marks, briefed.marks]
    simp only [same]
  · have nodup {received : List EventHash} {session : Session ε}
        (briefed : replica.Briefed received session) : session.sendList.Nodup :=
      .of_map _ briefed.filed.nodup
    refine (List.perm_ext_iff_of_nodup (nodup briefedAgain) (nodup briefed)).mpr fun event => ?_
    rw [briefedAgain.mem_sendList, briefed.mem_sendList, extends_iff]

end Briefed

/-- Whatever events say: an idle session takes any tips from the peer. It marks the received hashes
that are held, queues what strictly extends one of them and is not expired, and is left with the tips
that are neither received nor extend a received hash. Tips that are the same as a set make the session
alike, and the two stay alike whatever follows. -/
theorem receiveTips_of_idle (commands : List (Command ε)) (other : Replica ε)
    (localName peerName : String) (role : Role) (acts : List (Act ε))
    (idle : (({ replica := other, session := .start localName peerName role } :
      Course ε).actAll acts).session.phase = .idle) (received : List EventHash) :
    let replica := (∅ : Replica ε).performAll commands
    let session := (({ replica := other, session := .start localName peerName role } :
      Course ε).actAll acts).session
    ∃ after, replica.receiveTips session received = .ok () after ∧
      (after.phase = .tipsExchanged ∧ after.sentTips = session.sentTips ∧
        after.receivedTips = received) ∧
      (∀ hash : EventHash, after.marks[hash]? =
        if hash ∈ received ∧ hash ∈ replica.graph then some .peerHas else none) ∧
      (∀ hash, hash ∈ after.queued ↔ ∃ event, replica.Holds event ∧ DagEvent.hash event = hash ∧
        ¬ generation event ≤ replica.watermark ∧ replica.graph.Extends received hash) ∧
      after.Filed ∧ (∀ event ∈ after.sendList, replica.Holds event) ∧
      after.workingTips.Sublist replica.tips ∧
      (∀ tip, tip ∈ after.workingTips ↔
        tip ∈ replica.tips ∧ tip ∉ received ∧ ¬ replica.graph.Extends received tip) ∧
      ∀ again, (∀ hash, hash ∈ again ↔ hash ∈ received) →
        ∃ after', replica.receiveTips session again = .ok () after' ∧ after.Alike after' ∧
          ∀ later, Course.Alike (({ replica, session := after } : Course ε).actAll later)
            (({ replica, session := after' } : Course ε).actAll later) := by
  intro replica session
  have valid : replica.Valid := Valid.empty.performAll commands
  have untouched : session.Untouched := Course.untouched_of_idle idle
  have takes (tips : List EventHash) : ∃ after, replica.receiveTips session tips = .ok () after ∧
      replica.Briefed tips after ∧ after.phase = .tipsExchanged ∧
        after.sentTips = session.sentTips ∧ after.receivedTips = tips := by
    obtain ⟨after, taken⟩ : ∃ after, replica.receiveTips session tips = .ok () after :=
      ⟨_, receiveTips_eq_ok.mpr ⟨untouched.idle, rfl⟩⟩
    exact ⟨after, taken, untouched.briefed valid.linked valid.nodup taken⟩
  obtain ⟨after, taken, briefed, phase, sentTips, receivedTips⟩ := takes received
  refine ⟨after, taken, ⟨phase, sentTips, receivedTips⟩, briefed.marks, fun _ => briefed.mem_queued, briefed.filed,
    fun _ mem => (briefed.mem_sendList.mp mem).1, ?_, fun _ => briefed.mem_workingTips valid, ?_⟩
  · rw [briefed.workingTips]
    exact List.filter_sublist
  · intro again same
    obtain ⟨after', takenAgain, briefedAgain, phase', sentTips', -⟩ := takes again
    have alike : after.Alike after' := briefed.alike briefedAgain same (phase'.trans phase.symm)
      (sentTips'.trans sentTips.symm)
    exact ⟨after', takenAgain, alike, Course.Alike.actAll ⟨rfl, alike, .nil⟩⟩

/-- Takes in two events and a third one that extends the first. -/
def extending : List (Command Outline) := (forkedOutlines.take 3).map .add

theorem receiveTips_of_idle_extending :
    let replica := (∅ : Replica Outline).performAll extending
    let session := (({ replica, session := .start "ann" "bob" .caller } :
      Course Outline).actAll [.call .sendTips]).session
    session.phase = .idle ∧
    ∃ after, replica.receiveTips session [.filled 1] = .ok () after ∧
      after.marks[EventHash.filled 1]? = some .peerHas ∧ EventHash.filled 3 ∈ after.queued ∧
      EventHash.filled 3 ∉ after.workingTips ∧
      ∃ after', replica.receiveTips session [.filled 1, .filled 1] = .ok () after' ∧
        after.Alike after' := by
  intro replica session
  have idle : session.phase = .idle := by decide +kernel
  obtain ⟨after, taken, -, marks, queued, -, -, -, workingTips, again⟩ :=
    receiveTips_of_idle extending replica "ann" "bob" .caller [.call .sendTips] idle [.filled 1]
  have held : EventHash.filled 1 ∈ replica.graph := by decide +kernel
  have third : replica.graph.event? (.filled 3) = some (forkedOutline 2) := by decide +kernel
  have recorded : replica.graph.IsChild .self (.filled 1) (.filled 3) := by
    obtain ⟨shadow, found⟩ := Option.isSome_iff_exists.mp (mem_iff_isSome.mp held)
    refine (isChild_iff found).mpr ?_
    have children : ((replica.graph.get? (.filled 1)).any fun shadow =>
      (EventHash.filled 3 ∈ shadow.childrenOn .self)) = true := by decide +kernel
    simpa [found] using children
  have extends' : replica.graph.Extends [.filled 1] (.filled 3) :=
    ⟨.filled 1, List.mem_singleton.mpr rfl, .single recorded⟩
  obtain ⟨after', takenAgain, alike, -⟩ := again [.filled 1, .filled 1] (by simp)
  refine ⟨idle, after, taken, ?_, ?_, ?_, after', takenAgain, alike⟩
  · rw [marks]
    exact if_pos ⟨List.mem_singleton.mpr rfl, held⟩
  · exact (queued _).mpr ⟨forkedOutline 2, third, rfl, by decide +kernel, extends'⟩
  · exact fun mem => ((workingTips _).mp mem).2.2 extends'

end Replica
end Hashgraph
