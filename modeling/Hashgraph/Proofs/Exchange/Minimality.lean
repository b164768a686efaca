import Hashgraph.Proofs.Exchange.Run

/-! Where no chain forks, an exchange sends nothing that the peer has, and so exactly what the peer
lacks. Of every event that both sides hold, the session has marked a self-descendant or the event
itself: going up the chain on the peer's side one comes either to a tip of the peer, which was
received, or to a local tip that the peer has extended, which was affirmed. A walk therefore stops
before the first common event, and since chains do not meet, no walk overwrites the marks that
another one needs. -/

namespace Hashgraph

open DagEvent ShadowGraph Replica

variable {ε : Type} [DagEvent ε] {events : Set ε} {own peer : Replica ε} {session : Session ε}

/-- A list of all that the peer lacks, each once, in an order in which the peer can take it. -/
structure Replica.Exact (events : Set ε) (own peer : Replica ε) (offered : List ε) : Prop
    extends Deliverable events peer offered where
  nodup : offered.Nodup
  mem_iff : ∀ {event : ε}, event ∈ offered ↔ event ∈ own.events \ peer.events
  uncovered : ∀ event ∈ offered, ¬ peer.Covers event

namespace Session.Informed

theorem marks (informed : session.Informed own peer) {hash : EventHash} (held : hash ∈ own.graph)
    (shown : hash ∈ peer.tips ∨
      hash ∈ own.tips ∧ ∃ child, peer.graph.IsChild .self hash child) :
    session.marks[hash]? = some .peerHas := by
  obtain ⟨briefed, facts, answered⟩ := informed.learnt
  rw [answered.marks, facts.marks]
  rcases shown with received | extended
  · simp [received, held]
  · rw [if_pos (affirms_iff.mpr ⟨mem_zip_tipBooleans.mpr extended, held⟩)]

/-- Of a common event the event itself or a self-descendant is marked. -/
theorem exists_marked (informed : session.Informed own peer) (history : IsHistory events)
    (ours : Coherent events own) (theirs : Coherent events peer)
    (unforked : IsUnforked (own.events ∪ peer.events)) {hash : EventHash} (held : hash ∈ own.graph)
    (common : hash ∈ peer.graph) : ∃ shown, session.marks[shown]? = some .peerHas ∧
      Relation.ReflTransGen (own.graph.IsChild .self) hash shown := by
  revert held
  apply theirs.linked.climb_induction (theirs.falling history) _ common
  intro hash common above held
  by_cases childless : ∀ child, ¬ peer.graph.IsChild .self hash child
  · have tip := theirs.mem_tips.mpr ⟨common, childless⟩
    exact ⟨hash, informed.marks held (.inl tip), .refl⟩
  · push Not at childless
    obtain ⟨child, recorded⟩ := childless
    obtain ⟨younger, youngerHeld, rfl, names⟩ := exists_child theirs.linked recorded
    by_cases here : own.Holds younger
    · obtain ⟨shown, marked, path⟩ := above _ recorded here.mem
      exact ⟨shown, marked, .head (ours.records here names held) path⟩
    · -- the local chain ends here, or it would fork
      have tip : hash ∈ own.tips := by
        refine ours.mem_tips.mpr ⟨held, fun other branch => here ?_⟩
        obtain ⟨twin, twinHeld, rfl, twinNames⟩ := exists_child ours.linked branch
        have same := unforked (.inr ((mem_events_iff theirs.linked).mpr youngerHeld))
          (.inl ((mem_events_iff ours.linked).mpr twinHeld)) names twinNames
        exact same ▸ twinHeld
      exact ⟨hash, informed.marks held (.inr ⟨tip, _, recorded⟩), .refl⟩

theorem not_holds_of_briefed {briefed : Session ε} (facts : own.Briefed peer.tips briefed)
    (history : IsHistory events) (ours : Coherent events own) (theirs : Coherent events peer)
    (level : own.watermark = peer.watermark) (swept : own.IsSwept) {event : ε}
    (listed : event ∈ briefed.sendList) : ¬ peer.Holds event := by
  intro there
  obtain ⟨held, -, tip, isTip, path⟩ := facts.mem_sendList.mp listed
  obtain ⟨tipHeld, childless⟩ := theirs.mem_tips.mp isTip
  obtain ⟨child, first, rest⟩ := Relation.TransGen.head'_iff.mp path
  have down : ∀ {bottom : EventHash},
      Relation.ReflTransGen (own.graph.IsChild .self) bottom (hash event) →
      ∀ {older : ε}, own.Holds older → hash older = bottom → peer.Holds older := by
    intro bottom path
    induction path using Relation.ReflTransGen.head_induction_on with
    | refl =>
      intro older olderHeld same
      have mem := ours.mem_of_holds olderHeld
      exact theirs.holds_of_mem history mem (same ▸ there.mem)
    | head step _ ih =>
      rintro older olderHeld rfl
      obtain ⟨younger, youngerHeld, same, names⟩ := exists_child ours.linked step
      have covered := theirs.covers_parent history (ours.mem_of_holds youngerHeld)
        (ours.mem_of_holds olderHeld) names (.inl (ih youngerHeld same))
      exact swept.holds_of_covers ours.linked level olderHeld covered
  obtain ⟨younger, youngerHeld, rfl, names⟩ := exists_child ours.linked first
  exact childless _ (theirs.records (down rest youngerHeld rfl) names tipHeld)

section Chains

variable {g : ShadowGraph ε} {low high tip : EventHash}

abbrev Climbs (g : ShadowGraph ε) : EventHash → EventHash → Prop :=
  Relation.ReflTransGen (g.IsChild .self)

omit [DagEvent ε] in
/-- Where no event has two self-children, what lies above an event on the chain of a leaf lies on
that chain. -/
theorem climbs_leaf (single : ∀ {parent first second : EventHash}, g.IsChild .self parent first →
    g.IsChild .self parent second → first = second) (leaf : g.IsLeaf tip) (chain : Climbs g low tip)
    (path : Climbs g low high) : Climbs g high tip := by
  have unique : Relator.RightUnique (g.IsChild .self) := fun _ _ _ first second =>
    single first second
  rcases Relation.ReflTransGen.total_of_right_unique unique path chain with below | above
  · exact below
  · rcases above.cases_head with rfl | ⟨child, recorded, -⟩
    · exact .refl
    · exact (leaf.2 child recorded).elim

end Chains

theorem climbs_of_onChain (ours : Coherent events own) {tip hash : EventHash}
    (onChain : own.graph.OnChain (some tip) hash) : Climbs own.graph hash tip := by
  obtain ⟨start, same, -, path⟩ := onChain
  obtain rfl := Option.some.inj same
  induction path with
  | refl => exact .refl
  | tail _ step ih => exact .head (ours.selfParent_iff.mp step) ih

theorem single_child (ours : Coherent events own) (unforked : IsUnforked own.events)
    {parent first second : EventHash} (left : own.graph.IsChild .self parent first)
    (right : own.graph.IsChild .self parent second) : first = second := by
  obtain ⟨one, oneHeld, rfl, oneNames⟩ := exists_child ours.linked left
  obtain ⟨two, twoHeld, rfl, twoNames⟩ := exists_child ours.linked right
  have same := unforked ((mem_events_iff ours.linked).mpr oneHeld)
    ((mem_events_iff ours.linked).mpr twoHeld) oneNames twoNames
  exact congrArg DagEvent.hash same

/-- The walks from distinct tips list nothing that the peer has, as long as the marks on the chains
of the tips still to come are those of the informed session. -/
theorem not_holds_of_walked (informed : session.Informed own peer) (history : IsHistory events)
    (ours : Coherent events own) (theirs : Coherent events peer)
    (unforked : IsUnforked (own.events ∪ peer.events)) {tips : List EventHash} {walked : Session ε}
    (nodup : tips.Nodup) (leaves : ∀ tip ∈ tips, own.graph.IsLeaf tip)
    (intact : ∀ tip ∈ tips, ∀ hash, Climbs own.graph hash tip →
      walked.marks[hash]? = session.marks[hash]?)
    (missing : ∀ event ∈ walked.sendList, ¬ peer.Holds event) :
    ∀ event ∈ (tips.foldl (fun session tip => own.walk session (some tip)) walked).sendList,
      ¬ peer.Holds event := by
  have single {parent first second : EventHash} (left : own.graph.IsChild .self parent first)
      (right : own.graph.IsChild .self parent second) : first = second :=
    single_child ours (unforked.mono Set.subset_union_left) left right
  induction tips generalizing walked with
  | nil => exact missing
  | cons tip rest ih =>
    obtain ⟨apart, nodup⟩ := List.nodup_cons.mp nodup
    have leaf := leaves tip List.mem_cons_self
    refine ih nodup (fun other mem => leaves other (List.mem_cons_of_mem _ mem)) ?_ ?_
    · intro other mem hash below
      have before := intact other (List.mem_cons_of_mem _ mem) hash below
      rcases own.walk_marks walked (some tip) with same | ⟨last, onChain, -, marks⟩
      · rw [same, before]
      · rw [marks, Std.ExtTreeMap.getElem?_insert, if_neg, before]
        intro equal
        obtain rfl := Std.LawfulEqCmp.compare_eq_iff_eq.mp equal
        -- the chains of two tips do not meet
        have meets := climbs_leaf single leaf (climbs_of_onChain ours onChain) below
        rcases meets.cases_head with rfl | ⟨child, recorded, -⟩
        · exact apart mem
        · exact (leaves other (List.mem_cons_of_mem _ mem)).2 child recorded
    · intro event listed common
      rcases missing_of_mem_walk ours.linked listed with earlier | added
      · exact missing event earlier common
      · obtain ⟨shown, marked, path⟩ :=
          informed.exists_marked history ours theirs unforked added.holds.mem common.mem
        have below := climbs_leaf single leaf (climbs_of_onChain ours added.onChain) path
        rw [← intact tip List.mem_cons_self shown below] at marked
        exact added.unknown ((isKnownToPeer_iff ours.linked).mpr
          ⟨shown, Relation.ReflTransGen.mono (fun _ _ recorded => ⟨.self, recorded⟩) _ _ path,
            marked⟩)

theorem not_holds_of_finish (informed : session.Informed own peer) (history : IsHistory events)
    (ours : Coherent events own) (theirs : Coherent events peer)
    (unforked : IsUnforked (own.events ∪ peer.events)) (level : own.watermark = peer.watermark)
    (swept : own.IsSwept) {sendList : List ε} {after : Session ε}
    (finished : own.finish session = .ok sendList after) : ∀ event ∈ sendList, ¬ peer.Holds event := by
  intro event listed
  rw [mem_of_finish finished] at listed
  have nodup := informed.workingTips_nodup ours.toTracked
  have working := informed
  obtain ⟨briefed, facts, answered⟩ := informed.learnt
  refine not_holds_of_walked working history ours theirs unforked nodup ?_ (fun _ _ _ _ => rfl)
    ?_ event listed
  · intro tip mem
    rw [answered.workingTips, facts.workingTips] at mem
    exact ours.mem_tips.mp (List.mem_filter.mp (List.mem_filter.mp mem).1).1
  · rw [answered.sendList]
    exact fun event mem => not_holds_of_briefed facts history ours theirs level swept mem

theorem finish_exact (informed : session.Informed own peer)
    (history : IsHistory events) (ours : Coherent events own) (theirs : Coherent events peer)
    (unforked : IsUnforked (own.events ∪ peer.events)) (level : own.watermark = peer.watermark)
    (swept : own.IsSwept) : ∃ sendList after,
      own.finish session = .ok sendList after ∧ Exact events own peer sendList := by
  obtain ⟨sendList, after, finished, completes⟩ := informed.finish history ours theirs
  have missing := informed.not_holds_of_finish history ours theirs unforked level swept finished
  have present {event : ε} (held : own.Holds event) (covered : peer.Covers event) :
      peer.Holds event := swept.holds_of_covers ours.linked level held covered
  refine ⟨sendList, after, finished, completes.deliverable_of_level history ours level,
    completes.nodup.of_map, ?_, ?_⟩
  · intro event
    rw [Set.mem_sdiff, mem_events_iff ours.linked, mem_events_iff theirs.linked]
    constructor
    · exact fun listed => ⟨completes.listed event listed, missing event listed⟩
    · rintro ⟨held, absent⟩
      refine (completes.complete held).resolve_left fun known => absent ?_
      exact present held (covers_of_redundant level event known)
  · exact fun event listed covered =>
      missing event listed (present (completes.listed event listed) covered)

end Session.Informed

variable {caller listener : Replica ε}

/-- Between two swept replicas at one watermark whose events do not fork, the caller's send list is
what the listener lacks, and the listener takes all of it. -/
theorem callerSendList_minimal (history : IsHistory events) (ours : Reached events caller)
    (theirs : Reached events listener) (level : caller.watermark = listener.watermark)
    (callerSwept : caller.IsSwept) (unforked : IsUnforked (caller.events ∪ listener.events)) :
    ∃ sendList, callerSendList caller listener = .ok sendList ∧
      (∀ event, event ∈ sendList ↔ event ∈ caller.events ∧ event ∉ listener.events) ∧
      (sendList.map DagEvent.hash).Nodup ∧
      (listener.addEvents sendList).1 = List.replicate sendList.length .insertable ∧
      (caller.events ⊆ listener.events → sendList = []) := by
  have ours := ours.coherent history
  have theirs := theirs.coherent history
  obtain ⟨session, _, exchanged, informed, -⟩ :=
    exchangeKnowledge_ok ours.toTracked theirs.toTracked "caller" "listener"
  obtain ⟨sendList, after, finished, exact⟩ :=
    informed.finish_exact history ours theirs unforked level callerSwept
  refine ⟨sendList, ?_, fun event => exact.mem_iff, ?_,
    exact.toDeliverable.insertable theirs history exact.nodup exact.uncovered, ?_⟩
  · simp only [callerSendList, exchanged, finished, settlePhase, bind, Except.bind, pure, Except.pure]
  · refine exact.nodup.map_on fun first firstMem second secondMem => ?_
    exact history.hash_inj (exact.mem_events first firstMem) (exact.mem_events second secondMem)
  · intro subset
    refine List.eq_nil_iff_forall_not_mem.mpr fun event listed => ?_
    obtain ⟨held, absent⟩ := exact.mem_iff.mp listed
    exact absent (subset held)

/-- The caller has extended a chain, the listener has only the other creator's event. -/
theorem callerSendList_minimal_extended :
    let extended : Replica Outline := ((∅ : Replica Outline).addEvents (forkedOutlines.take 3)).2
    let listener : Replica Outline := ((∅ : Replica Outline).addEvents [forkedOutlines[1]]).2
    ∃ sendList, callerSendList extended listener = .ok sendList ∧
      (∀ event, event ∈ sendList ↔ event ∈ extended.events ∧ event ∉ listener.events) ∧
      (sendList.map DagEvent.hash).Nodup ∧
      (listener.addEvents sendList).1 = List.replicate sendList.length .insertable ∧
      (extended.events ⊆ listener.events → sendList = []) := by
  intro extended listener
  have history : IsHistory {event | event ∈ forkedOutlines.take 3} := by decide +kernel
  have unforked : IsUnforked {event | event ∈ forkedOutlines.take 3} := by decide +kernel
  have above : ∀ event ∈ forkedOutlines.take 3,
      Generation.nothingExpired < DagEvent.generation event := by decide +kernel
  have second : ∀ event ∈ [forkedOutlines[1]], event ∈ forkedOutlines.take 3 := by decide +kernel
  have ours : Reached {event | event ∈ forkedOutlines.take 3} extended :=
    Steps.reached (Steps.addEvents fun _ mem => mem) .empty
  have theirs : Reached {event | event ∈ forkedOutlines.take 3} listener :=
    Steps.reached (Steps.addEvents second) .empty
  have oursSubset := (ours.coherent history).events_subset
  have theirsSubset := (theirs.coherent history).events_subset
  refine callerSendList_minimal history ours theirs ?_ ?_
    (unforked.mono (Set.union_subset oursSubset theirsSubset))
  · rw [addEvents_watermark, addEvents_watermark]
  · intro event held
    rw [addEvents_watermark]
    exact above event (oursSubset held)

end Hashgraph
