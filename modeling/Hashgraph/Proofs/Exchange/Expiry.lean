import Hashgraph.Proofs.Exchange.Encounter
import Hashgraph.Proofs.Exchange.Walk
import Hashgraph.Proofs.Replica.Delivery

/-! Expired events in a send list. Each event is checked against the watermark of the moment at which
it is listed: the descendants of the peer's tips when these are taken, the missing events at the end.
Nothing is checked again, so what is listed first can expire before the list is complete. -/

namespace Hashgraph

open DagEvent ShadowGraph Replica

variable {ε : Type} [DagEvent ε] {replica : Replica ε} {session after : Session ε} {event : ε}

namespace Replica

omit [DagEvent ε] in
theorem of_mem_enqueue {hash : EventHash} {added : ε}
    (mem : event ∈ (session.enqueue hash added).sendList) :
    event ∈ session.sendList ∨ event = added := by
  unfold Session.enqueue at mem
  split at mem
  · exact .inl mem
  · exact (List.mem_append.mp mem).imp_right List.mem_singleton.mp

omit [DagEvent ε] in
theorem of_mem_foldl {α : Type} {add : Session ε → α → Session ε} {added : Prop} (items : List α)
    (each : ∀ session item, event ∈ (add session item).sendList →
      event ∈ session.sendList ∨ added)
    (mem : event ∈ (items.foldl add session).sendList) : event ∈ session.sendList ∨ added := by
  induction items generalizing session with
  | nil => exact .inl mem
  | cons item rest ih => exact (ih mem).elim (each session item) .inr

theorem unexpired_of_mem_applyDescendant {hash : EventHash}
    (mem : event ∈ (replica.applyDescendant session hash).sendList) :
    event ∈ session.sendList ∨ replica.watermark < generation event := by
  unfold applyDescendant at mem
  split at mem
  · exact .inl mem
  · split at mem
    · exact .inl mem
    · rename_i shadow found unexpired
      refine (of_mem_enqueue mem).imp_right ?_
      rintro rfl
      exact Int64.not_le.mp fun expired => unexpired (decide_eq_true expired)

theorem unexpired_of_mem_applyTip {tip : EventHash}
    (mem : event ∈ (replica.applyTip session tip).sendList) :
    event ∈ session.sendList ∨ replica.watermark < generation event := by
  unfold applyTip at mem
  split at mem
  · have listed := of_mem_foldl _ (fun _ _ => unexpired_of_mem_applyDescendant) mem
    rwa [Session.notePeerHas_sendList] at listed
  · exact .inl mem

/-- The first phase lists what the watermark does not expire at that moment. -/
theorem unexpired_of_receiveTips {received : List EventHash} (untouched : session.Untouched)
    (taken : replica.receiveTips session received = .ok () after) :
    ∀ event ∈ after.sendList, replica.watermark < generation event := by
  obtain ⟨-, rfl⟩ := receiveTips_eq_ok.mp taken
  intro event mem
  refine (of_mem_foldl _ (fun _ _ => unexpired_of_mem_applyTip) mem).resolve_left fun earlier => ?_
  rw [untouched.sendList] at earlier
  exact List.not_mem_nil earlier

omit [DagEvent ε] in
theorem sendList_of_receiveBooleans {received : List Bool}
    (taken : replica.receiveBooleans session received = .ok () after) :
    after.sendList = session.sendList := by
  have folded (answers : List (EventHash × Bool)) (begun : Session ε) :
      (answers.foldl replica.applyBoolean begun).sendList = begun.sendList := by
    induction answers generalizing begun with
    | nil => rfl
    | cons answer rest ih =>
      rw [List.foldl_cons, ih, applyBoolean]
      split <;> rfl
  obtain ⟨-, sent, -, -, rfl⟩ := receiveBooleans_eq_ok.mp taken
  exact folded _ _

theorem unexpired_of_mem_walk {cursor : Option EventHash}
    (mem : event ∈ (replica.walk session cursor).sendList) :
    event ∈ session.sendList ∨ replica.watermark < generation event := by
  fun_induction replica.walk session cursor with
  | case1 | case2 | case3 | case4 | case5 => exact .inl mem
  | case6 session hash shadow found active unknown fresh ih =>
    rcases ih mem with listed | above
    · refine (of_mem_enqueue listed).imp_right ?_
      rintro rfl
      rw [Bool.or_eq_true, not_or] at active
      exact Int64.not_le.mp fun expired => active.2 (decide_eq_true expired)
    · exact .inr above

/-- In the end the send list has what was listed before, and besides only unexpired events. -/
theorem mem_finish_of_expired {sendList : List ε}
    (finished : replica.finish session = .ok sendList after)
    (expired : generation event ≤ replica.watermark) :
    event ∈ sendList ↔ event ∈ session.sendList := by
  rw [mem_of_finish finished]
  constructor
  · intro mem
    refine (of_mem_foldl _ (fun _ _ => unexpired_of_mem_walk) mem).resolve_right ?_
    exact Int64.not_lt.mpr expired
  · exact mem_walkFrom_of_mem _

end Replica

namespace Encounter

variable {moves : Replica ε → Replica ε → Prop} {d : Encounter ε} {localName peerName : String}
  {role : Role}

theorem endures_unexpired : Endures (fun _ => True) fun (snapshot : Replica ε) session =>
    ∀ event ∈ session.sendList, snapshot.watermark < generation event where
  receiveTips _ untouched taken := unexpired_of_receiveTips untouched taken
  sendTips above sent := by
    obtain ⟨-, -, -, rfl⟩ := sendTips_eq_ok.mp sent
    exact above
  receiveBooleans _ above taken := by
    rw [sendList_of_receiveBooleans taken]
    exact above

/-- Whatever the peer says and however the replica moves, the expired events of a completed list are
those listed in the first phase that the watermark has overtaken since. -/
theorem expired_mem_finish_iff (steps : Steps moves (start replica localName peerName role) d)
    (ready : d.session.phase = .booleansExchanged) :
    ∃ snapshot sendList after, d.snapshot = some snapshot ∧
      d.replica.finish d.session = .ok sendList after ∧
      ∀ event : ε, event ∈ sendList ∧ generation event ≤ d.replica.watermark ↔
        event ∈ d.session.sendList ∧ snapshot.watermark < generation event ∧
          generation event ≤ d.replica.watermark := by
  obtain ⟨snapshot, -, taken, above⟩ :=
    steps.endures_ready endures_unexpired (fun _ _ => trivial) ready
  obtain ⟨sendList, after, finished⟩ := d.replica.exists_finish ready
  refine ⟨snapshot, sendList, after, taken, finished, fun event => ?_⟩
  constructor
  · rintro ⟨mem, expired⟩
    have listed := (mem_finish_of_expired finished expired).mp mem
    exact ⟨listed, above event listed, expired⟩
  · rintro ⟨listed, -, expired⟩
    exact ⟨(mem_finish_of_expired finished expired).mpr listed, expired⟩

def extended : Replica Outline := ((∅ : Replica Outline).addEvents forkedOutlines).2

theorem reached_extended : Reached {event | event ∈ forkedOutlines} extended :=
  Replica.Steps.reached (Replica.Steps.addEvents fun _ mem => mem) .empty

/-- The peer names the extended event as its tip, so the two others are listed; then the watermark
rises to them. -/
theorem exists_overtaken : ∃ d : Encounter Outline,
    Steps (Replica.Step {event | event ∈ forkedOutlines}) (start extended "ann" "bob" .caller) d ∧
      d.session.phase = .booleansExchanged ∧ d.replica.watermark = 1 ∧
      forkedOutline 3 ∈ d.session.sendList := by
  have history : IsHistory {event | event ∈ forkedOutlines} := by decide +kernel
  have coherent := reached_extended.coherent history
  have computed : extended.tips.length = [false, false, false].length ∧ extended.watermark ≤ 0 ∧
      extended.graph.event? (.filled 1) = some (forkedOutline 0) ∧
      extended.graph.event? (.filled 4) = some (forkedOutline 3) := by decide +kernel
  obtain ⟨fits, low, parent, child⟩ := computed
  have rises : extended.watermark ≤ 1 := Int64.le_trans low (by decide)
  have overtaking : Replica.Step {event | event ∈ forkedOutlines} extended
      (extended.perform (.expireTo 1)) := .expireTo rises
  obtain ⟨d, briefed, steps, ready, replica, -, -, listed, answered⟩ :=
    exists_ready "ann" "bob" .caller [.filled 1] fits .refl (.single overtaking) coherent.toTracked
  refine ⟨d, steps, ready, ?_, ?_⟩
  · rw [replica, perform, expireTo_watermark]
  · rw [answered.sendList, listed.mem_sendList]
    have recorded : extended.graph.IsChild .self (.filled 1) (.filled 4) :=
      coherent.records child (by decide) (mem_of_event? parent)
    refine ⟨child, fun expired => ?_, .filled 1, List.mem_singleton_self _, .single recorded⟩
    exact absurd (Int64.le_trans expired low) (by decide)

/-- An event at the watermark is sent. -/
theorem not_unexpired_overtaken : ¬ ∀ d : Encounter Outline,
    Steps (Replica.Step {event | event ∈ forkedOutlines}) (start extended "ann" "bob" .caller) d →
    d.session.phase = .booleansExchanged → ∀ sendList after,
    d.replica.finish d.session = .ok sendList after →
    ∀ event ∈ sendList, d.replica.watermark < generation event := by
  intro unexpired
  obtain ⟨d, steps, ready, watermark, listed⟩ := exists_overtaken
  obtain ⟨sendList, after, finished⟩ := d.replica.exists_finish ready
  have sent := (mem_of_finish finished).mpr (mem_walkFrom_of_mem _ listed)
  have above := unexpired d steps ready sendList after finished _ sent
  rw [watermark] at above
  exact absurd above (by decide)

theorem expired_mem_finish_overtaken : ∃ (d : Encounter Outline) (snapshot : Replica Outline)
    (sendList : List Outline) (after : Session Outline),
    Steps (Replica.Step {event | event ∈ forkedOutlines}) (start extended "ann" "bob" .caller) d ∧
      d.session.phase = .booleansExchanged ∧ d.snapshot = some snapshot ∧
      d.replica.finish d.session = .ok sendList after ∧ forkedOutline 3 ∈ sendList ∧
      snapshot.watermark < generation (forkedOutline 3) ∧
      generation (forkedOutline 3) ≤ d.replica.watermark := by
  obtain ⟨d, steps, ready, watermark, listed⟩ := exists_overtaken
  obtain ⟨snapshot, sendList, after, taken, finished, expired_iff⟩ :=
    expired_mem_finish_iff steps ready
  have sent := (mem_of_finish finished).mpr (mem_walkFrom_of_mem _ listed)
  have expired : generation (forkedOutline 3) ≤ d.replica.watermark := by
    rw [watermark]
    decide
  obtain ⟨-, above, -⟩ := (expired_iff _).mp ⟨sent, expired⟩
  exact ⟨d, snapshot, sendList, after, steps, ready, taken, finished, sent, above, expired⟩

end Encounter
end Hashgraph
