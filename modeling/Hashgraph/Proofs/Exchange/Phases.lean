import Hashgraph.Proofs.Exchange.Briefing

/-! When a phase of an exchange succeeds and what session it leaves. -/

namespace Hashgraph

variable {ε : Type} {session after : Session ε}

/-- A session that has not taken the peer's tips yet. -/
structure Session.Untouched (session : Session ε) : Prop where
  idle : session.phase = .idle
  sendList : session.sendList = []
  queued : session.queued = ∅
  marks : session.marks = ∅

theorem Session.untouched_start (localName peerName : String) (role : Role) :
    (Session.start localName peerName role : Session ε).Untouched := ⟨rfl, rfl, rfl, rfl⟩

theorem Session.untouched_sent (localName peerName : String) (role : Role) (tips : List EventHash) :
    ({ Session.start localName peerName role with sentTips := some tips } : Session ε).Untouched :=
  ⟨rfl, rfl, rfl, rfl⟩

namespace Replica

variable {replica : Replica ε}

theorem hasSelfChild_iff {hash : EventHash} :
    replica.hasSelfChild hash ↔ ∃ child, replica.graph.IsChild .self hash child := by
  rw [hasSelfChild, Option.any_eq_true]
  constructor
  · rintro ⟨shadow, held, branched⟩
    rw [Bool.not_eq_true', ← Bool.not_eq_true, Shadow.isTip_iff, not_forall_not] at branched
    obtain ⟨child, mem⟩ := branched
    exact ⟨child, shadow, held, mem⟩
  · rintro ⟨child, shadow, held, mem⟩
    refine ⟨shadow, held, ?_⟩
    rw [Bool.not_eq_true', ← Bool.not_eq_true, Shadow.isTip_iff]
    exact fun childless => childless child mem

/-- The answers on sent tips say which of them have a self-child. -/
theorem mem_zip_tipBooleans {sent : List EventHash} {hash : EventHash} :
    (hash, true) ∈ sent.zip (replica.tipBooleans sent) ↔
      hash ∈ sent ∧ ∃ child, replica.graph.IsChild .self hash child := by
  rw [tipBooleans, ← List.map_prod_left_eq_zip, List.mem_map, ← hasSelfChild_iff]
  constructor
  · rintro ⟨tip, mem, same⟩
    obtain ⟨rfl, yes⟩ := Prod.mk.inj same
    exact ⟨mem, yes⟩
  · rintro ⟨mem, yes⟩
    exact ⟨hash, mem, by rw [yes]⟩

theorem sendTips_eq_ok {tips : List EventHash} : replica.sendTips session = .ok tips after ↔
    session.phase.rank < Phase.booleansExchanged.rank ∧ session.sentTips = none ∧
      tips = replica.tips ∧ after = { session with sentTips := some replica.tips } := by
  unfold sendTips
  split
  · rename_i late
    simp only [reduceCtorEq, false_iff, not_and]
    exact fun early => (Nat.not_lt.mpr late early).elim
  · rename_i early
    rw [and_iff_right (Nat.not_le.mp early)]
    split
    · rename_i sent
      obtain ⟨tips, sent⟩ := Option.isSome_iff_exists.mp sent
      simp [sent]
    · rename_i unsent
      rw [Option.not_isSome_iff_eq_none] at unsent
      simp [unsent, eq_comm]

theorem sendTips_start (replica : Replica ε) (localName peerName : String) (role : Role) :
    replica.sendTips (.start localName peerName role) = .ok replica.tips
      { Session.start localName peerName role with sentTips := some replica.tips } :=
  sendTips_eq_ok.mpr ⟨Nat.zero_lt_two, rfl, rfl, rfl⟩

theorem receiveBooleans_eq_ok {received : List Bool} :
    replica.receiveBooleans session received = .ok () after ↔
      session.phase = .tipsExchanged ∧ ∃ sent, session.sentTips = some sent ∧
        sent.length = received.length ∧
        after = { (sent.zip received).foldl replica.applyBoolean session with
          phase := .booleansExchanged } := by
  unfold receiveBooleans
  split
  · rename_i ready
    rw [and_iff_right ready]
    split
    · rename_i unsent
      simp [unsent]
    · rename_i sent known
      split
      · rename_i fits
        simp [known, fits, eq_comm]
      · rename_i differs
        simp [known, differs]
  · rename_i early
    simp [early]

/-- What the second phase leaves. -/
theorem receiveBooleans_answered {received : List Bool} (nodup : session.workingTips.Nodup)
    (taken : replica.receiveBooleans session received = .ok () after) :
    session.phase = .tipsExchanged ∧ ∃ sent, session.sentTips = some sent ∧
      replica.Answered (sent.zip received) session after ∧ after.phase = .booleansExchanged := by
  obtain ⟨phase, sent, known, -, rfl⟩ := receiveBooleans_eq_ok.mp taken
  have folded : replica.Answered (sent.zip received) session
      ((sent.zip received).foldl replica.applyBoolean session) := foldl_applyBoolean nodup _
  obtain ⟨sentTips, sendList, queued, marks, workingTips⟩ := folded
  exact ⟨phase, sent, known, ⟨sentTips, sendList, queued, marks, workingTips⟩, rfl⟩

variable [DagEvent ε]

theorem receiveTips_eq_ok {received : List EventHash} :
    replica.receiveTips session received = .ok () after ↔ session.phase = .idle ∧
      after = { received.foldl replica.applyTip
        { session with receivedTips := received, workingTips := replica.tips } with
          phase := .tipsExchanged } := by
  unfold receiveTips
  split
  · rename_i idle
    simp [idle, eq_comm]
  · rename_i busy
    simp [busy]

theorem exists_finish (replica : Replica ε) (ready : session.phase = .booleansExchanged) :
    ∃ sendList after, replica.finish session = .ok sendList after := ⟨_, _, if_pos ready⟩

theorem mem_of_finish {sendList : List ε} (finished : replica.finish session = .ok sendList after)
    {event : ε} : event ∈ sendList ↔ event ∈ (session.workingTips.foldl
      (fun session tip => replica.walk session (some tip)) session).sendList := by
  unfold finish at finished
  split at finished
  · injection finished with same
    rw [← same, List.mem_mergeSort]
  · contradiction

end Replica

namespace Session.Untouched

open Replica

variable [DagEvent ε] {replica : Replica ε} {received : List EventHash}

/-- What the first phase leaves of an untouched session. -/
theorem briefed (untouched : session.Untouched) (linked : replica.graph.Linked)
    (tipsNodup : replica.tips.Nodup) (taken : replica.receiveTips session received = .ok () after) :
    replica.Briefed received after ∧ after.phase = .tipsExchanged ∧
      after.sentTips = session.sentTips ∧ after.receivedTips = received := by
  obtain ⟨-, rfl⟩ := receiveTips_eq_ok.mp taken
  have begun : replica.Briefed []
      { session with receivedTips := received, workingTips := replica.tips } :=
    .empty rfl untouched.sendList untouched.queued untouched.marks
  obtain ⟨filed, marks, mem_sendList, workingTips⟩ :=
    begun.foldl_applyTip linked tipsNodup received
  exact ⟨⟨filed.congr rfl rfl, marks, mem_sendList, workingTips⟩, rfl, foldl_applyTip_told⟩

theorem receiveTips (untouched : session.Untouched) (tracked : replica.Tracked)
    (taken : replica.receiveTips session received = .ok () after) :
    replica.Briefed received after ∧ after.phase = .tipsExchanged ∧
      after.sentTips = session.sentTips ∧ after.receivedTips = received :=
  untouched.briefed tracked.linked tracked.nodup taken

end Session.Untouched

end Hashgraph
