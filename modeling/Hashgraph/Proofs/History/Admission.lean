import Mathlib.Algebra.Group.Fin.Basic
import Hashgraph.Proofs.History.Chronicle
import Hashgraph.Proofs.Replica.Commutation
import Hashgraph.Proofs.Replica.Consistency

/-! The intake of synthetic histories. A replica that is offered a history in order, or the
beginning of one, takes in every event: it is new, nothing is expired, and its parents came before
it. Each event takes the place of the previous one of its creator among the tips. Together with how
the events are made this says what the histories are, for all choices that can be drawn. -/

namespace Hashgraph

open DagEvent ShadowGraph

variable {creators : Nat} {choices : List (History.Choice creators)}
  {choice : History.Choice creators} {before events : List Event} {event : Event}
  {replica : Replica Event}

namespace Replica

/-- The replica holds just these events, and its tips are the latest ones of their creators. -/
structure Records (replica : Replica Event) (events : List Event) : Prop
    extends Tracked replica where
  settled : replica.IsSettled
  unexpired : replica.watermark = Generation.nothingExpired
  holds_iff : ∀ event, replica.Holds event ↔ event ∈ events
  tip_iff : ∀ tip, tip ∈ replica.tips ↔
    ∃ creator, ∃ event ∈ History.latestOf creator events, DagEvent.hash event = tip

namespace Records

theorem empty : (∅ : Replica Event).Records [] where
  toTracked := .empty
  settled hash event held := by
    rw [show (∅ : Replica Event).graph = ∅ from rfl, event?_empty] at held
    contradiction
  unexpired := rfl
  holds_iff event := by
    refine iff_of_false (fun held => ?_) List.not_mem_nil
    exact not_mem_empty _ held.mem
  tip_iff tip := by
    refine iff_of_false List.not_mem_nil ?_
    rintro ⟨creator, event, latest, -⟩
    exact List.not_mem_nil (History.mem_of_latestOf latest).1

theorem mem_graph_iff (records : replica.Records events) {hash : EventHash} :
    hash ∈ replica.graph ↔ ∃ event ∈ events, DagEvent.hash event = hash := by
  rw [mem_iff_event?]
  constructor
  · rintro ⟨event, found⟩
    obtain ⟨held, own⟩ := (Replica.holds_iff records.linked).mp found
    exact ⟨event, (records.holds_iff event).mp held, own⟩
  · rintro ⟨event, mem, rfl⟩
    exact ⟨event, (records.holds_iff event).mpr mem⟩

section Step

variable (records : replica.Records events) (follows : History.Follows events choice event)
  (distinct : ((events ++ [event]).map DagEvent.hash).Nodup)

include distinct in
theorem hash_ne {older : Event} (mem : older ∈ events) : hash older ≠ hash event := by
  rw [List.map_append, List.map_singleton, List.nodup_append] at distinct
  exact distinct.2.2 _ (List.mem_map_of_mem mem) _ (List.mem_singleton.mpr rfl)

include follows distinct in
theorem not_names_hash : ¬ Names .self event (hash event) := by
  intro names
  obtain ⟨named, declared, same⟩ := names_iff.mp names
  obtain ⟨older, mem, rfl, -⟩ := follows.parents .self named declared
  exact hash_ne distinct mem same

include follows distinct in
/-- The event names, as its self-parent, the latest of its creator's events and no other. -/
theorem names_self_iff {older : Event} (mem : older ∈ events) :
    Names .self event (hash older) ↔ older ∈ History.latestOf event.creator events := by
  have listed : (events.map DagEvent.hash).Nodup :=
    distinct.sublist ((List.sublist_append_left events [event]).map DagEvent.hash)
  rw [names_iff, show parent .self event = selfParent event from rfl, follows.selfParent_eq]
  constructor
  · rintro ⟨named, declared, same⟩
    obtain ⟨last, latest, rfl⟩ := Option.map_eq_some_iff.mp declared
    have lastMem := (History.mem_of_latestOf latest).1
    obtain rfl := List.inj_on_of_nodup_map listed lastMem mem same
    exact latest
  · exact fun latest => ⟨descriptor older, Option.map_eq_some_iff.mpr ⟨older, latest, rfl⟩, rfl⟩

include records follows distinct in
theorem classify_eq (above : Generation.nothingExpired < generation event) :
    replica.classify event = .insertable := by
  rw [classify_eq_insertable, records.unexpired, records.mem_graph_iff]
  refine ⟨?_, Int64.not_le.mpr above, ?_⟩
  · rintro ⟨older, mem, same⟩
    exact hash_ne distinct mem same
  · intro line named declared
    obtain ⟨older, mem, rfl, -⟩ := follows.parents line named declared
    exact .inl (records.mem_graph_iff.mpr ⟨older, mem, rfl⟩)

include records follows distinct in
/-- An event that was taken in takes the place of the previous one of its creator. -/
theorem addEvent (insertable : replica.classify event = .insertable) :
    (replica.addEvent event).2.Records (events ++ [event]) where
  toTracked := records.toTracked.addEvent (not_names_hash follows distinct)
  settled := records.settled.addEvent event
  unexpired := addEvent_watermark.trans records.unexpired
  holds_iff other := by
    rw [holds_addEvent_iff insertable, records.holds_iff, List.mem_append, List.mem_singleton]
  tip_iff tip := by
    obtain ⟨graph, -, added⟩ := addEvent_of_insertable insertable
    have absent : hash event ∉ replica.tips := fun mem =>
      (classify_eq_insertable.mp insertable).1 (records.mem_tips.mp mem).1
    rw [added, mem_tipsAfter records.nodup absent, records.tip_iff]
    constructor
    · rintro ⟨⟨creator, older, latest, rfl⟩ | rfl, unnamed⟩
      · -- a tip that stays is by another creator
        obtain ⟨mem, rfl⟩ := History.mem_of_latestOf latest
        rw [names_self_iff follows distinct mem] at unnamed
        have foreign : event.creator ≠ older.creator := fun own => unnamed (own ▸ latest)
        refine ⟨older.creator, older, ?_, rfl⟩
        rwa [History.latestOf_concat, if_neg foreign]
      · refine ⟨event.creator, event, ?_, rfl⟩
        rw [History.latestOf_concat, if_pos rfl]
        rfl
    · rintro ⟨creator, older, latest, rfl⟩
      rw [History.latestOf_concat] at latest
      split at latest
      · obtain rfl := Option.some.inj latest
        exact ⟨.inr rfl, not_names_hash follows distinct⟩
      · rename_i foreign
        obtain ⟨mem, rfl⟩ := History.mem_of_latestOf latest
        refine ⟨.inl ⟨_, older, latest, rfl⟩, ?_⟩
        rw [names_self_iff follows distinct mem]
        exact fun last => foreign (History.mem_of_latestOf last).2.symm

end Step

end Records
end Replica

namespace History

/-- A replica takes in every event when it is offered these in order. -/
structure IsAdmitted (events : List Event) : Prop where
  statuses : (Replica.empty.addEvents events).1 = List.replicate events.length .insertable
  consistent : (populate events).checkConsistency = .ok ()
  tips_nodup : (populate events).tips.Nodup
  tip_iff : ∀ tip, tip ∈ (populate events).tips ↔
    ∃ creator, ∃ event ∈ latestOf creator events, DagEvent.hash event = tip

/-- The events are a history by these choices, one event a choice, that every replica takes in from
its beginning up to any point. -/
structure IsChronicle (choices : List (Choice creators)) (events : List Event) : Prop where
  length_eq : events.length = choices.length
  nodup : (events.map DagEvent.hash).Nodup
  follows : ∀ before event after, events = before ++ event :: after →
    ∃ choice, choices[before.length]? = some choice ∧ Follows before choice event
  parents : ∀ before event after, events = before ++ event :: after →
    ∀ line, ∀ named ∈ parent line event, ∃ older ∈ before, descriptor older = named ∧
      (older.creator = event.creator ↔ line = .self)
  admitted : ∀ before, before <+: events → IsAdmitted before

theorem Tells.records (tells : Tells choices events) (distinct : (events.map DagEvent.hash).Nodup) :
    (Replica.empty.addEvents events).1 = List.replicate events.length .insertable ∧
      (populate events).Records events := by
  induction tells with
  | nil => exact ⟨rfl, .empty⟩
  | @concat choices events choice event _ follows _ above ih =>
    have listed : (events.map DagEvent.hash).Nodup :=
      distinct.sublist ((List.sublist_append_left events [event]).map DagEvent.hash)
    obtain ⟨statuses, records⟩ := ih listed
    have insertable := records.classify_eq follows distinct above
    rw [populate, Replica.addEvents_append, statuses, List.length_append, List.replicate_add]
    refine ⟨?_, records.addEvent follows distinct insertable⟩
    change _ ++ [((populate events).addEvent event).1] = _
    rw [Replica.addEvent_fst, insertable]
    rfl

theorem Tells.isAdmitted (tells : Tells choices events)
    (distinct : (events.map DagEvent.hash).Nodup) : IsAdmitted events := by
  obtain ⟨statuses, records⟩ := tells.records distinct
  refine ⟨statuses, ?_, records.nodup, records.tip_iff⟩
  exact Replica.checkConsistency_eq_ok.mpr (records.toTracked.isConsistent records.settled)

theorem Follows.creator_eq_iff (follows : Follows before choice event) (inRange : choice.InRange)
    (injective : Function.Injective (identity : Fin creators → CreatorId)) (line : Line) :
    ∀ named ∈ parent line event, ∃ older ∈ before, descriptor older = named ∧
      (older.creator = event.creator ↔ line = .self) := by
  intro named declared
  obtain ⟨older, mem, same, slot, chosen, creator⟩ := follows.parents line named declared
  refine ⟨older, mem, same, ?_⟩
  rw [creator, follows.creator_eq, injective.eq_iff]
  cases line with
  | self => exact iff_of_true (Option.some.inj chosen).symm rfl
  | other =>
    refine iff_of_false ?_ (by decide)
    rintro rfl
    exact inRange.other_ne chosen

theorem Tells.isChronicle (tells : Tells choices events) (numbered : creators ≤ UInt64.size)
    (inRange : ∀ choice ∈ choices, choice.InRange) (free : CollisionFree creators events) :
    IsChronicle choices events := by
  have distinct := tells.nodup free
  have chosen {before after : List Event} {event : Event}
      (split : events = before ++ event :: after) :
      ∃ choice, choices[before.length]? = some choice ∧ Follows before choice event :=
    (split ▸ tells).follows
  refine ⟨tells.length_eq, distinct, fun _ _ _ => chosen, ?_, ?_⟩
  · intro before event after split line
    obtain ⟨choice, there, follows⟩ := chosen split
    exact follows.creator_eq_iff (inRange choice (List.mem_of_getElem? there))
      (free.identity_injective numbered) line
  · intro before begins
    obtain ⟨first, told⟩ := tells.of_prefix begins
    exact told.isAdmitted (distinct.sublist (begins.sublist.map _))

theorem inRange_drawChoice (creators : Nat) (generator : Random.Generator) :
    (drawChoice creators generator).1.InRange := by
  cases creators with
  | zero => exact ⟨by simp [drawChoice], by simp [drawChoice]⟩
  | succ others => exact ⟨by simp [drawChoice], by simp [drawChoice]⟩

theorem length_drawChoices (creators count : Nat) (generator : Random.Generator) :
    (drawChoices creators count generator).length = count := by
  induction count generalizing generator with
  | zero => rfl
  | succ count ih => exact congrArg Nat.succ (ih _)

theorem inRange_drawChoices (creators count : Nat) (generator : Random.Generator) :
    ∀ choice ∈ drawChoices creators count generator, choice.InRange := by
  induction count generalizing generator with
  | zero => exact fun _ mem => (List.not_mem_nil mem).elim
  | succ count ih => exact List.forall_mem_cons.mpr ⟨inRange_drawChoice creators generator, ih _⟩

/-- The choices make a chronicle, one event a choice, as long as the digest tells apart what it is
fed. So every random history is one, by as many choices as events were asked for. -/
theorem chronicle_of_choices :
    (∀ {creators : Nat} {choices : List (Choice creators)}, creators ≤ UInt64.size →
      (∀ choice ∈ choices, choice.InRange) → CollisionFree creators (ofChoices choices) →
      IsChronicle choices (ofChoices choices)) ∧
    ∀ (creators count : Nat) (seed : UInt64), creators ≤ UInt64.size →
      CollisionFree (creators - 1 + 1) (random creators count seed) →
      ∃ choices : List (Choice (creators - 1 + 1)), choices.length = count ∧
        (∀ choice ∈ choices, choice.InRange) ∧ random creators count seed = ofChoices choices ∧
        IsChronicle choices (random creators count seed) := by
  have made {creators : Nat} {choices : List (Choice creators)} (numbered : creators ≤ UInt64.size)
      (inRange : ∀ choice ∈ choices, choice.InRange)
      (free : CollisionFree creators (ofChoices choices)) :
      IsChronicle choices (ofChoices choices) :=
    (tells_ofChoices inRange numbered free).isChronicle numbered inRange free
  refine ⟨made, fun creators count seed numbered free => ?_⟩
  have positive : 1 ≤ UInt64.size := by decide
  have inRange := inRange_drawChoices (creators - 1) count (Random.Generator.ofSeed seed)
  refine ⟨_, length_drawChoices _ _ _, inRange, rfl, made ?_ inRange free⟩
  omega

def turns : List (Choice 2) := [⟨0, some 1⟩, ⟨1, some 0⟩]

/-- Besides the turns, a creator that is alone, whose events have self-parents only. -/
theorem chronicle_of_turns :
    (∀ choice ∈ turns, choice.InRange) ∧ CollisionFree 2 (ofChoices turns) ∧
      IsChronicle turns (ofChoices turns) ∧ CollisionFree 1 (random 1 2 7) ∧
      ∃ choices : List (Choice 1), choices.length = 2 ∧ IsChronicle choices (random 1 2 7) := by
  have inRange : ∀ choice ∈ turns, choice.InRange := by
    intro choice mem
    rcases List.mem_pair.mp mem with rfl | rfl <;> exact ⟨by decide, by decide⟩
  have free : CollisionFree 2 (ofChoices turns) := .of_nodup (by decide +kernel)
  have lone (generator : Random.Generator) : (drawChoice 0 generator).1 = ⟨0, none⟩ :=
    congrArg (Choice.mk · none) (Fin.fin_one_eq_zero (generator.choose 0).1)
  have drawn : random 1 2 7 = ofChoices [⟨(0 : Fin 1), none⟩, ⟨0, none⟩] := by
    change ofChoices (drawChoices 0 2 (.ofSeed 7)) = _
    simp only [drawChoices, lone]
  have alone : CollisionFree 1 (random 1 2 7) := by
    rw [drawn]
    exact .of_nodup (by decide +kernel)
  refine ⟨inRange, free, chronicle_of_choices.1 (by decide) inRange free, alone, ?_⟩
  obtain ⟨choices, length_eq, -, -, chronicle⟩ := chronicle_of_choices.2 1 2 7 (by decide) alone
  exact ⟨choices, length_eq, chronicle⟩

end History
end Hashgraph
