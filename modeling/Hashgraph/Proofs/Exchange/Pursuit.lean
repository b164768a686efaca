import Hashgraph.Proofs.Exchange.Walk
import Hashgraph.Proofs.Replica.Delivery

/-! Nothing is forgotten in an exchange. A session pursues what its replica held when it took the
peer's tips: of every chain in that snapshot either the top is still to be walked from, or the
chain is listed down to an event that need not be sent. The replica may have changed before the
walks start; an event that is gone by then is expired. -/

namespace Hashgraph.Replica

open DagEvent ShadowGraph

variable {ε : Type} [DagEvent ε] {events spared more : Set ε} {replica snapshot : Replica ε}
  {session : Session ε} {pending : Option EventHash}

/-- Events that need not be sent: what the replica expires, and with an event its ancestors. -/
structure Spares (events : Set ε) (replica : Replica ε) (spared : Set ε) : Prop where
  expired : ∀ {event : ε}, event ∈ events → generation event ≤ replica.watermark → event ∈ spared
  parent : ∀ {line : Line} {child older : ε}, child ∈ events → older ∈ events →
    Names line child (hash older) → child ∈ spared → older ∈ spared

/-- What need not be sent to a peer: what it covers, and what is expired on the own side. -/
def redundant (events : Set ε) (own peer : Replica ε) : Set ε :=
  {event | event ∈ events ∧ (peer.Covers event ∨ generation event ≤ own.watermark)}

theorem Coherent.spares_redundant {own peer : Replica ε} (coherent : Coherent events peer)
    (history : IsHistory events) : Spares events own (redundant events own peer) where
  expired mem low := ⟨mem, .inr low⟩
  parent := by
    rintro line child older childMem olderMem names ⟨-, covered | low⟩
    · exact ⟨olderMem, .inl (coherent.covers_parent history childMem olderMem names covered)⟩
    · have below := history.lt_of_names childMem olderMem names
      exact ⟨olderMem, .inr (Int64.le_trans (Int64.le_of_lt below) low)⟩

/-- What a session has secured of a snapshot, but for one pending hash. -/
structure Pursues (events : Set ε) (snapshot : Replica ε) (spared : Set ε)
    (pending : Option EventHash) (session : Session ε) : Prop where
  filed : session.Filed
  listed : ∀ event ∈ session.sendList, snapshot.Holds event
  marked : ∀ {event : ε} {mark : Mark}, event ∈ events →
    session.marks[hash event]? = some mark → event ∈ spared
  closed : ∀ {child older : ε}, child ∈ session.sendList → snapshot.Holds older →
    Names .self child (hash older) →
    older ∈ spared ∨ older ∈ session.sendList ∨ pending = some (hash older)
  nodup : session.workingTips.Nodup
  working : ∀ tip ∈ session.workingTips, tip ∈ snapshot.tips
  tips : ∀ {tip : ε}, snapshot.Holds tip → hash tip ∈ snapshot.tips →
    tip ∈ spared ∨ tip ∈ session.sendList ∨ hash tip ∈ session.workingTips

theorem isChild_self_names (linked : replica.graph.Linked) {parent : EventHash} {child : ε}
    (recorded : replica.graph.IsChild .self parent (hash child)) (held : replica.Holds child) :
    Names .self child parent := by
  obtain ⟨event, found, names⟩ := linked.child_names recorded
  rw [Holds, found] at held
  exact Option.some.inj held ▸ names

namespace Pursues

theorem congr {after : Session ε} (pursues : Pursues events snapshot spared pending session)
    (sendList : after.sendList = session.sendList) (queued : after.queued = session.queued)
    (marks : after.marks = session.marks) (workingTips : after.workingTips = session.workingTips) :
    Pursues events snapshot spared pending after where
  filed := pursues.filed.congr sendList queued
  listed := sendList ▸ pursues.listed
  marked := marks ▸ pursues.marked
  closed := sendList ▸ pursues.closed
  nodup := workingTips ▸ pursues.nodup
  working := workingTips ▸ pursues.working
  tips := by
    rw [sendList, workingTips]
    exact pursues.tips

theorem mono (pursues : Pursues events snapshot spared pending session) (subset : spared ⊆ more) :
    Pursues events snapshot more pending session where
  filed := pursues.filed
  listed := pursues.listed
  marked mem found := subset (pursues.marked mem found)
  closed listed held names := (pursues.closed listed held names).imp_left (subset ·)
  nodup := pursues.nodup
  working := pursues.working
  tips held tip := (pursues.tips held tip).imp_left (subset ·)

theorem of_briefed {received : List EventHash} (briefed : snapshot.Briefed received session)
    (coherent : Coherent events snapshot)
    (expired : ∀ {event : ε}, event ∈ events → generation event ≤ snapshot.watermark →
      event ∈ spared)
    (named : ∀ {event : ε}, event ∈ events → hash event ∈ received → event ∈ spared) :
    Pursues events snapshot spared none session where
  filed := briefed.filed
  listed event mem := (briefed.mem_sendList.mp mem).1
  marked {event mark} mem found := by
    rw [briefed.marks] at found
    split at found
    · rename_i known
      exact named mem known.1
    · contradiction
  closed {child older} listed held names := by
    obtain ⟨childHeld, -, tip, tipMem, path⟩ := briefed.mem_sendList.mp listed
    obtain ⟨parent, path, recorded⟩ := Relation.TransGen.tail'_iff.mp path
    have same : parent = hash older := Option.some.inj
      ((isChild_self_names coherent.linked recorded childHeld).symm.trans names)
    subst same
    have olderMem := coherent.mem_of_holds held
    rcases Relation.reflTransGen_iff_eq_or_transGen.mp path with first | strict
    · exact .inl (named olderMem (first ▸ tipMem))
    · by_cases low : generation older ≤ snapshot.watermark
      · exact .inl (expired olderMem low)
      · exact .inr (.inl (briefed.mem_sendList.mpr ⟨held, low, tip, tipMem, strict⟩))
  nodup := briefed.workingTips ▸ coherent.nodup.filter _
  working tip mem := by
    rw [briefed.workingTips] at mem
    exact (List.mem_filter.mp mem).1
  tips {tip} held isTip := by
    have mem := coherent.mem_of_holds held
    by_cases settled : snapshot.graph.settledBy received (hash tip)
    · rcases coherent.linked.settledBy_iff.mp settled with ⟨known, -⟩ | extended
      · exact .inl (named mem known)
      · by_cases low : generation tip ≤ snapshot.watermark
        · exact .inl (expired mem low)
        · exact .inr (.inl (briefed.mem_sendList.mpr ⟨held, low, extended⟩))
    · refine .inr (.inr ?_)
      rw [briefed.workingTips]
      exact List.mem_filter.mpr ⟨isTip, by simpa using settled⟩

theorem answered {after : Session ε} {answers : List (EventHash × Bool)}
    (pursues : Pursues events snapshot spared pending session)
    (answered : replica.Answered answers session after) (coherent : Coherent events snapshot)
    (affirmed : ∀ {event : ε}, event ∈ events → (hash event, true) ∈ answers → event ∈ spared) :
    Pursues events snapshot spared pending after where
  filed := pursues.filed.congr answered.sendList answered.queued
  listed := answered.sendList ▸ pursues.listed
  marked {event mark} mem found := by
    rw [answered.marks] at found
    split at found
    · rename_i yes
      exact affirmed mem (affirms_iff.mp yes).1
    · exact pursues.marked mem found
  closed listed held names := by
    rw [answered.sendList] at listed ⊢
    exact pursues.closed listed held names
  nodup := answered.workingTips ▸ pursues.nodup.filter _
  working tip mem := by
    rw [answered.workingTips] at mem
    exact pursues.working tip (List.mem_filter.mp mem).1
  tips {tip} held isTip := by
    rw [answered.sendList, answered.workingTips, List.mem_filter]
    rcases pursues.tips held isTip with mem | listed | working
    · exact .inl mem
    · exact .inr (.inl listed)
    · by_cases yes : replica.affirms answers (hash tip)
      · exact .inl (affirmed (coherent.mem_of_holds held) (affirms_iff.mp yes).1)
      · exact .inr (.inr ⟨working, by simpa using yes⟩)

end Pursues

theorem Spares.of_known (spares : Spares events replica spared)
    (coherent : Coherent events replica)
    (marked : ∀ {event : ε} {mark : Mark}, event ∈ events →
      session.marks[hash event]? = some mark → event ∈ spared)
    {hash : EventHash} {event : ε} (held : replica.graph.event? hash = some event)
    (known : replica.isKnownToPeer session hash) : event ∈ spared := by
  obtain ⟨shown, path, mark⟩ := (isKnownToPeer_iff coherent.linked).mp known
  clear known
  induction path using Relation.ReflTransGen.head_induction_on generalizing event with
  | refl =>
    rw [← coherent.linked.hash_eq held] at mark
    exact marked (coherent.mem_events held) mark
  | head step _ ih =>
    obtain ⟨line, recorded⟩ := step
    obtain ⟨child, found, names⟩ := coherent.linked.child_names recorded
    rw [← coherent.linked.hash_eq held] at names
    exact spares.parent (coherent.mem_events found) (coherent.mem_events held) names (ih found)

section Walk

variable {cursor : Option EventHash}

/-- Whatever the snapshot holds at the cursor is spared or listed. -/
def Secured (snapshot : Replica ε) (spared : Set ε) (session : Session ε)
    (cursor : Option EventHash) : Prop :=
  ∀ {event : ε}, snapshot.Holds event → cursor = some (hash event) →
    event ∈ spared ∨ event ∈ session.sendList

/-- A walk may stop where its cursor is secured. -/
theorem Pursues.stop (pursues : Pursues events snapshot spared cursor session)
    (secured : Secured snapshot spared session cursor) :
    Pursues events snapshot spared none session := by
  refine { pursues with closed := ?_ }
  intro child older listed held names
  rcases pursues.closed listed held names with mem | mem | here
  · exact .inl mem
  · exact .inr (.inl mem)
  · exact (secured held here).imp_right .inl

theorem Pursues.pend (pursues : Pursues events snapshot spared none session) :
    Pursues events snapshot spared cursor session := by
  refine { pursues with closed := ?_ }
  intro child older listed held names
  rcases pursues.closed listed held names with mem | mem | _
  · exact .inl mem
  · exact .inr (.inl mem)
  · contradiction

theorem Pursues.setMark (pursues : Pursues events snapshot spared pending session)
    (history : IsHistory events) (coherent : Coherent events replica) {top : EventHash} {event : ε}
    (held : replica.graph.event? top = some event) (isSpared : event ∈ spared) (mark : Mark) :
    Pursues events snapshot spared pending (session.setMark mark top) := by
  refine ⟨pursues.filed.congr rfl rfl, pursues.listed, ?_, pursues.closed, pursues.nodup,
    pursues.working, pursues.tips⟩
  intro other _ mem found
  rw [Session.getElem?_marks_setMark] at found
  split at found
  · rename_i same
    subst same
    obtain rfl := coherent.eq_of_event? history mem held
    exact isSpared
  · exact pursues.marked mem found

theorem Pursues.mem_enqueue (pursues : Pursues events snapshot spared pending session)
    (history : IsHistory events) (taken : Coherent events snapshot) {event : ε}
    (mem : event ∈ events) {other : ε} :
    other ∈ (session.enqueue (hash event) event).sendList ↔
      other ∈ session.sendList ∨ other = event :=
  pursues.filed.mem_enqueue fun other listed =>
    history.hash_inj (taken.mem_of_holds (pursues.listed other listed)) mem

/-- Where the pending event is listed, its self-parent is pending instead. -/
theorem Pursues.enqueue {event : ε}
    (pursues : Pursues events snapshot spared (some (hash event)) session)
    (history : IsHistory events) (taken : Coherent events snapshot) (held : snapshot.Holds event) :
    Pursues events snapshot spared ((parent .self event).map Descriptor.hash)
      (session.enqueue (hash event) event) := by
  have mem := taken.mem_of_holds held
  have listed_iff {other : ε} : other ∈ (session.enqueue (hash event) event).sendList ↔
      other ∈ session.sendList ∨ other = event := pursues.mem_enqueue history taken mem
  refine ⟨pursues.filed.enqueue rfl, ?_, ?_, ?_, ?_, ?_, ?_⟩
  · intro other listed
    rcases listed_iff.mp listed with earlier | rfl
    · exact pursues.listed other earlier
    · exact held
  · rw [Session.enqueue_marks]
    exact pursues.marked
  · intro child older listed olderHeld names
    rcases listed_iff.mp listed with earlier | rfl
    · rcases pursues.closed earlier olderHeld names with isSpared | listed | here
      · exact .inl isSpared
      · exact .inr (.inl (listed_iff.mpr (.inl listed)))
      · have same := history.hash_inj mem (taken.mem_of_holds olderHeld) (Option.some.inj here)
        exact .inr (.inl (listed_iff.mpr (.inr same.symm)))
    · exact .inr (.inr names)
  · rw [Session.enqueue_workingTips]
    exact pursues.nodup
  · rw [Session.enqueue_workingTips]
    exact pursues.working
  · intro tip tipHeld isTip
    rw [Session.enqueue_workingTips, listed_iff]
    exact (pursues.tips tipHeld isTip).imp_right (Or.imp_left .inl)

theorem Pursues.walk (pursues : Pursues events snapshot spared cursor session)
    (history : IsHistory events) (taken : Coherent events snapshot)
    (coherent : Coherent events replica) (spares : Spares events replica spared)
    (later : snapshot.watermark ≤ replica.watermark)
    (kept : ∀ {event : ε}, snapshot.Holds event → ¬ generation event ≤ replica.watermark →
      replica.Holds event)
    (start : ∀ {event : ε}, event ∈ events → cursor = some (hash event) →
      snapshot.Holds event ∨ generation event ≤ replica.watermark) :
    Pursues events snapshot spared none (replica.walk session cursor) ∧
      Secured snapshot spared (replica.walk session cursor) cursor := by
  fun_induction replica.walk session cursor with
  | case1 session =>
    have secured : Secured snapshot spared session none := by
      intro event held here
      contradiction
    exact ⟨pursues.stop secured, secured⟩
  | case2 session top absent =>
    have secured : Secured snapshot spared session (some top) := by
      intro event held here
      obtain rfl := Option.some.inj here
      refine .inl (spares.expired (taken.mem_of_holds held) ?_)
      by_contra unexpired
      exact get?_eq_none.mp absent (kept held unexpired).mem
    exact ⟨pursues.stop secured, secured⟩
  | case3 session top shadow found settled =>
    have secured : Secured snapshot spared session (some top) := by
      intro event held here
      obtain rfl := Option.some.inj here
      have mem := taken.mem_of_holds held
      rcases Bool.or_eq_true_iff.mp settled with searched | expired
      · exact .inl (pursues.marked mem (Session.isMarked_iff.mp searched))
      · obtain rfl := coherent.eq_of_event? history mem (event?_of_get? found)
        exact .inl (spares.expired mem (decide_eq_true_iff.mp expired))
    exact ⟨pursues.stop secured, secured⟩
  | case4 session top shadow found active known =>
    have held := event?_of_get? found
    have isSpared := spares.of_known coherent pursues.marked held known
    have secured : Secured snapshot spared session (some top) := by
      intro event heldBefore here
      obtain rfl := Option.some.inj here
      obtain rfl := coherent.eq_of_event? history (taken.mem_of_holds heldBefore) held
      exact .inl isSpared
    exact ⟨(pursues.stop secured).setMark history coherent held isSpared .search, secured⟩
  | case5 session top shadow found active unknown queued =>
    have secured : Secured snapshot spared session (some top) := by
      intro event held here
      obtain rfl := Option.some.inj here
      obtain ⟨other, listed, own⟩ := pursues.filed.mem_queued.mp queued
      have same := history.hash_inj (taken.mem_of_holds (pursues.listed other listed))
        (taken.mem_of_holds held) own
      exact .inr (same ▸ listed)
    exact ⟨pursues.stop secured, secured⟩
  | case6 session top shadow found active unknown fresh ih =>
    obtain ⟨holds, own⟩ := (holds_iff coherent.linked).mp (event?_of_get? found)
    subst own
    have mem := coherent.mem_of_holds holds
    have unexpired : ¬ generation shadow.event ≤ replica.watermark := fun expired =>
      active (Bool.or_eq_true_iff.mpr (.inr (decide_eq_true expired)))
    have before := (start mem rfl).resolve_right unexpired
    have next := pursues.enqueue history taken before
    have startNext {event : ε} (eventMem : event ∈ events)
        (here : shadow.selfParent.map Descriptor.hash = some (hash event)) :
        snapshot.Holds event ∨ generation event ≤ replica.watermark := by
      obtain ⟨descriptor, named, same⟩ := Option.map_eq_some_iff.mp here
      have names : parent .self shadow.event = some descriptor := named
      rcases taken.settles before .self descriptor names with parentHeld | expired
      · exact .inl (taken.holds_of_mem history eventMem (same ▸ parentHeld))
      · rw [history.declared mem eventMem names same] at expired
        exact .inr (Int64.le_trans expired later)
    refine ⟨(ih next startNext).1, ?_⟩
    intro event held here
    have same := history.hash_inj mem (taken.mem_of_holds held) (Option.some.inj here)
    exact .inr (mem_walk_of_mem ((pursues.mem_enqueue history taken mem).mpr (.inr same.symm)))

theorem foldl_walk_workingTips (tips : List EventHash) :
    (tips.foldl (fun session tip => replica.walk session (some tip)) session).workingTips =
      session.workingTips := by
  induction tips generalizing session with
  | nil => rfl
  | cons tip rest ih => rw [List.foldl_cons, ih, walk_workingTips]

theorem Pursues.foldl_walk (tips : List EventHash)
    (pursues : Pursues events snapshot spared none session) (history : IsHistory events)
    (taken : Coherent events snapshot) (coherent : Coherent events replica)
    (spares : Spares events replica spared) (later : snapshot.watermark ≤ replica.watermark)
    (kept : ∀ {event : ε}, snapshot.Holds event → ¬ generation event ≤ replica.watermark →
      replica.Holds event) (held : ∀ tip ∈ tips, tip ∈ snapshot.graph) :
    let walked := tips.foldl (fun session tip => replica.walk session (some tip)) session
    Pursues events snapshot spared none walked ∧
      (∀ event ∈ session.sendList, event ∈ walked.sendList) ∧
      ∀ tip ∈ tips, Secured snapshot spared walked (some tip) := by
  induction tips generalizing session with
  | nil => exact ⟨pursues, fun _ => id, fun tip mem => (List.not_mem_nil mem).elim⟩
  | cons tip rest ih =>
    have start {event : ε} (mem : event ∈ events) (here : some tip = some (hash event)) :
        snapshot.Holds event ∨ generation event ≤ replica.watermark :=
      .inl (taken.holds_of_mem history mem (Option.some.inj here ▸ held tip List.mem_cons_self))
    obtain ⟨next, secured⟩ := pursues.pend.walk history taken coherent spares later kept start
    obtain ⟨last, grows, securedRest⟩ := ih next fun other mem => held other (List.mem_cons_of_mem _ mem)
    refine ⟨last, fun event mem => grows event (mem_walk_of_mem mem), ?_⟩
    intro other mem
    rcases List.mem_cons.mp mem with rfl | mem
    · exact fun held here => (secured held here).imp_right (grows _)
    · exact securedRest other mem

end Walk

theorem generation_le_trans (first second third : ε)
    (low : decide (generation first ≤ generation second))
    (high : decide (generation second ≤ generation third)) :
    decide (generation first ≤ generation third) := by
  rw [decide_eq_true_iff] at low high ⊢
  exact Int64.le_trans low high

theorem generation_le_total (first second : ε) :
    decide (generation first ≤ generation second) ||
      decide (generation second ≤ generation first) := by
  rw [Bool.or_eq_true, decide_eq_true_iff, decide_eq_true_iff]
  exact Int64.le_total _ _

theorem pairwise_mergeSort_generation (list : List ε) :
    (list.mergeSort fun first second => generation first ≤ generation second).Pairwise
      fun first second => generation first ≤ generation second :=
  (List.pairwise_mergeSort generation_le_trans generation_le_total list).imp of_decide_eq_true

/-- A list that, with what is spared, makes up the snapshot. -/
structure Completes (snapshot : Replica ε) (spared : Set ε) (sendList : List ε) : Prop where
  nodup : (sendList.map DagEvent.hash).Nodup
  sorted : sendList.Pairwise fun first second => generation first ≤ generation second
  listed : ∀ event ∈ sendList, snapshot.Holds event
  complete : ∀ {event : ε}, snapshot.Holds event → event ∈ spared ∨ event ∈ sendList

/-- Where the tips are secured, so is all that lies below them. -/
theorem Pursues.complete (pursues : Pursues events snapshot spared none session)
    (history : IsHistory events) (taken : Coherent events snapshot)
    (spares : Spares events replica spared)
    (secured : ∀ tip ∈ session.workingTips, Secured snapshot spared session (some tip))
    {event : ε} (held : snapshot.Holds event) : event ∈ spared ∨ event ∈ session.sendList := by
  obtain ⟨leaf, isLeaf, path⟩ := taken.linked.exists_leaf_above (taken.falling history) held.mem
  have down {bottom : EventHash}
      (path : Relation.ReflTransGen snapshot.graph.SelfParent leaf bottom) :
      ∀ {event : ε}, snapshot.Holds event → hash event = bottom →
        event ∈ spared ∨ event ∈ session.sendList := by
    induction path with
    | refl =>
      rintro tip held rfl
      rcases pursues.tips held (taken.mem_tips.mpr isLeaf) with isSpared | listed | working
      · exact .inl isSpared
      · exact .inr listed
      · exact secured _ working held rfl
    | tail _ step ih =>
      rintro older held rfl
      obtain ⟨-, child, found, names⟩ := step
      obtain ⟨childHeld, own⟩ := (holds_iff taken.linked).mp found
      rcases ih childHeld own with isSpared | listed
      · exact .inl (spares.parent (taken.mem_of_holds childHeld) (taken.mem_of_holds held) names
          isSpared)
      · rcases pursues.closed listed held names with isSpared | listed | pending
        · exact .inl isSpared
        · exact .inr listed
        · contradiction
  exact down path held rfl

theorem Pursues.finish (pursues : Pursues events snapshot spared none session)
    (history : IsHistory events) (taken : Coherent events snapshot)
    (coherent : Coherent events replica) (spares : Spares events replica spared)
    (later : snapshot.watermark ≤ replica.watermark)
    (kept : ∀ {event : ε}, snapshot.Holds event → ¬ generation event ≤ replica.watermark →
      replica.Holds event) (ready : session.phase = .booleansExchanged) :
    ∃ sendList after, replica.finish session = .ok sendList after ∧
      Completes snapshot spared sendList := by
  obtain ⟨walked, -, secured⟩ := pursues.foldl_walk session.workingTips history taken coherent
    spares later kept fun tip working => (taken.mem_tips.mp (pursues.working tip working)).1
  refine ⟨_, _, if_pos ready, ?_, ?_, ?_, ?_⟩
  · exact ((List.mergeSort_perm _ _).map _).nodup_iff.mpr walked.filed.nodup
  · exact pairwise_mergeSort_generation _
  · exact fun event mem => walked.listed event (List.mem_mergeSort.mp mem)
  · intro event held
    rw [List.mem_mergeSort]
    refine walked.complete history taken spares ?_ held
    rw [foldl_walk_workingTips]
    exact secured

namespace Completes

variable {receiver : Replica ε} {sendList : List ε}

/-- A peer that covers what is spared can take the list in order. -/
theorem deliverable (completes : Completes snapshot spared sendList) (history : IsHistory events)
    (taken : Coherent events snapshot) (covered : ∀ event ∈ spared, receiver.Covers event)
    (level : snapshot.watermark ≤ receiver.watermark) :
    Deliverable events receiver sendList where
  mem_events event mem := taken.mem_of_holds (completes.listed event mem)
  sorted := completes.sorted
  parents event mem line descriptor named := by
    have held := completes.listed event mem
    rcases taken.settles held line descriptor named with parentHeld | expired
    · obtain ⟨older, found⟩ := mem_iff_event?.mp parentHeld
      obtain ⟨olderHeld, own⟩ := (holds_iff taken.linked).mp found
      rcases completes.complete olderHeld with isSpared | listed
      · rcases covered older isSpared with there | expired
        · exact .inl (own ▸ there.mem)
        · rw [← history.declared (taken.mem_of_holds held) (taken.mem_of_holds olderHeld) named
            own.symm] at expired
          exact .inr (.inl expired)
      · exact .inr (.inr ⟨older, listed, own⟩)
    · exact .inr (.inl (Int64.le_trans expired level))

theorem covers_addEvents (completes : Completes snapshot spared sendList)
    (history : IsHistory events) (taken : Coherent events snapshot)
    (coherent : Coherent events receiver) (covered : ∀ event ∈ spared, receiver.Covers event)
    (level : snapshot.watermark ≤ receiver.watermark) {event : ε} (held : snapshot.Holds event) :
    (receiver.addEvents sendList).2.Covers event := by
  rcases completes.complete held with isSpared | listed
  · exact (covered event isSpared).addEvents
  · exact (completes.deliverable history taken covered level).covers coherent history listed

end Completes
end Hashgraph.Replica
