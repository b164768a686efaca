import Mathlib.Data.List.Nodup
import Hashgraph.History.Synthetic
import Hashgraph.Proofs.Event.Building
import Hashgraph.Proofs.Event.Commitment

/-! The making of synthetic histories. Each choice gets its event: the table of the latest events
agrees with the events so far, so the parents of a draft are events of two creators, and such events
have different hashes. Two events of one history cannot say the same either, since the later one
extends what came after the parent of the earlier. All this needs of the digest is that the strings
it is fed have different digests. -/

namespace Hashgraph

theorem Bytes.ofWord_inj {first second : UInt64} :
    ofWord first = ofWord second ↔ first = second := by
  refine ⟨fun same => ?_, congrArg ofWord⟩
  have whole : capacity 8 = UInt64.size := rfl
  have values := congrArg value same
  rw [ofWord, ofWord, value_littleEndian, value_littleEndian, whole,
    Nat.mod_eq_of_lt first.toNat_lt_size, Nat.mod_eq_of_lt second.toNat_lt_size] at values
  exact UInt64.toNat_inj.mp values

/-- A generation that is left open lies above the bottom of the range. -/
theorem Draft.nothingExpired_lt_of_settleGeneration {draft : Draft} {generation : Generation}
    (unasked : draft.generation = none) (settled : draft.settleGeneration = .ok generation) :
    Generation.nothingExpired < generation := by
  unfold settleGeneration at settled
  rw [unasked] at settled
  cases found : draft.parentGeneration? with
  | none =>
    rw [found] at settled
    obtain rfl := Except.ok.inj settled
    decide
  | some highest =>
    rw [found] at settled
    obtain rfl := Except.ok.inj settled
    have bottom := Int64.minValue_le_toInt highest
    have least := Generation.toInt_minValue
    have greatest := Generation.toInt_maxValue
    rw [Int64.lt_iff_toInt_lt, Generation.nothingExpired, Generation.next, Generation.toInt_ofIntClamp]
    omega

namespace History

open DagEvent

variable {creators : Nat}

def identity (slot : Fin creators) : CreatorId := CreatorId.ofIndex (UInt64.ofNat slot.val)

def latestOf (creator : CreatorId) (events : List Event) : Option Event :=
  (events.filter fun event => event.creator = creator).getLast?

/-- A choice that can be drawn. Another creator is chosen exactly if there are several. -/
structure Choice.InRange (choice : Choice creators) : Prop where
  other_ne : choice.other ≠ some choice.creator
  isSome_iff : choice.other.isSome ↔ 1 < creators

def Choice.on (choice : Choice creators) : Line → Option (Fin creators)
  | .self => some choice.creator
  | .other => choice.other

/-- The event comes after these events by this choice. Its parents are the latest events of its
creator and of the other one, as far as there are any. -/
structure Follows (before : List Event) (choice : Choice creators) (event : Event) : Prop where
  creator_eq : event.creator = identity choice.creator
  selfParent_eq : selfParent event = (latestOf event.creator before).map descriptor
  otherParent_eq : otherParent event =
    choice.other.bind fun other => (latestOf (identity other) before).map descriptor

/-- The events that choices make, one for each choice. -/
inductive Tells : List (Choice creators) → List Event → Prop
  | nil : Tells [] []
  | concat {choices : List (Choice creators)} {events : List Event} {choice : Choice creators}
    {event : Event} (tells : Tells choices events) (follows : Follows events choice event)
    (wirable : event.IsWirable) (above : Generation.nothingExpired < generation event) :
    Tells (choices ++ [choice]) (events ++ [event])

/-- What the digest is fed while a history is made: the keys of the creators and what the events
say. -/
def fed (creators : Nat) (events : List Event) : List Bytes :=
  (List.range creators).map (fun slot => Bytes.ofWord (UInt64.ofNat slot)) ++
    events.map fun event => event.toContent.preimage

/-- No two of the strings that the digest is fed have one digest. -/
def CollisionFree (creators : Nat) (events : List Event) : Prop :=
  Set.InjOn Digest.blake3 {content | content ∈ fed creators events}

section Latest

variable {creator : CreatorId} {before after events : List Event} {event : Event}

theorem latestOf_append : latestOf creator (before ++ after) =
    (latestOf creator after).or (latestOf creator before) := by
  rw [latestOf, List.filter_append, List.getLast?_append]
  rfl

theorem latestOf_concat : latestOf creator (events ++ [event]) =
    if event.creator = creator then some event else latestOf creator events := by
  rw [latestOf_append, latestOf, List.filter_singleton]
  by_cases own : event.creator = creator <;> simp [own]

theorem mem_of_latestOf (latest : event ∈ latestOf creator events) :
    event ∈ events ∧ event.creator = creator := by
  have mem := List.mem_filter.mp (List.mem_of_getLast? latest)
  exact ⟨mem.1, of_decide_eq_true mem.2⟩

theorem exists_latestOf (mem : event ∈ events) : ∃ last, last ∈ latestOf event.creator events := by
  have some : (events.filter fun other => other.creator = event.creator) ≠ [] := by
    apply List.ne_nil_of_mem
    exact List.mem_filter.mpr ⟨mem, decide_eq_true rfl⟩
  exact ⟨_, List.getLast?_eq_getLast_of_ne_nil some⟩

theorem Follows.parent_eq {choice : Choice creators} (follows : Follows before choice event)
    (line : Line) : parent line event =
      (choice.on line).bind fun slot => (latestOf (identity slot) before).map descriptor := by
  cases line with
  | self =>
    rw [show parent .self event = selfParent event from rfl, follows.selfParent_eq,
      follows.creator_eq]
    rfl
  | other => exact follows.otherParent_eq

/-- Parents are events from before, with the generations that they have. -/
theorem Follows.parents {choice : Choice creators} (follows : Follows before choice event)
    (line : Line) : ∀ named ∈ parent line event, ∃ older ∈ before, descriptor older = named ∧
      ∃ slot ∈ choice.on line, older.creator = identity slot := by
  intro named declared
  obtain ⟨slot, chosen, declared⟩ :=
    Option.bind_eq_some_iff.mp ((follows.parent_eq line).symm.trans declared)
  obtain ⟨older, latest, same⟩ := Option.map_eq_some_iff.mp declared
  obtain ⟨mem, creator⟩ := mem_of_latestOf latest
  exact ⟨older, mem, same, slot, chosen, creator⟩

end Latest

namespace CollisionFree

variable {events fewer : List Event} {first second : Event}

theorem of_nodup (nodup : ((fed creators events).map Digest.blake3).Nodup) :
    CollisionFree creators events :=
  fun _ mem _ mem' same => List.inj_on_of_nodup_map nodup mem mem' same

theorem mono (free : CollisionFree creators events) (subset : fewer ⊆ events) :
    CollisionFree creators fewer := by
  have earlier : fed creators fewer ⊆ fed creators events := by
    intro content mem
    rcases List.mem_append.mp mem with key | said
    · exact List.mem_append_left _ key
    · exact List.mem_append_right _ (List.map_subset _ subset said)
  exact fun first firstMem second secondMem => free (earlier firstMem) (earlier secondMem)

theorem identity_injective (free : CollisionFree creators events)
    (numbered : creators ≤ UInt64.size) :
    Function.Injective (identity : Fin creators → CreatorId) := by
  intro first second same
  have key (slot : Fin creators) : Bytes.ofWord (UInt64.ofNat slot.val) ∈ fed creators events :=
    List.mem_append_left _ (List.mem_map.mpr ⟨slot.val, List.mem_range.mpr slot.isLt, rfl⟩)
  have keys := Bytes.ofWord_inj.mp (free (key first) (key second) (congrArg CreatorId.bytes same))
  have numbers := congrArg UInt64.toNat keys
  rw [UInt64.toNat_ofNat_of_lt' (first.isLt.trans_le numbered),
    UInt64.toNat_ofNat_of_lt' (second.isLt.trans_le numbered)] at numbers
  exact Fin.ext numbers

theorem eq_of_hash (free : CollisionFree creators events) (mem : first ∈ events)
    (mem' : second ∈ events) (wirable : first.IsWirable) (wirable' : second.IsWirable)
    (same : hash first = hash second) : first = second := by
  have said {event : Event} (mem : event ∈ events) :
      event.toContent.preimage ∈ fed creators events :=
    List.mem_append_right _ (List.mem_map_of_mem mem)
  have hashes : first.toContent.digest = second.toContent.digest :=
    wirable.authentic.symm.trans (same.trans wirable'.authentic)
  have preimages := free (said mem) (said mem') (congrArg EventHash.bytes hashes)
  rw [Content.preimage_eq_encode, Content.preimage_eq_encode,
    Content.encode_inj wirable.lengths wirable'.lengths] at preimages
  obtain ⟨content, own⟩ := first
  obtain ⟨content', own'⟩ := second
  rw [Event.mk.injEq]
  exact ⟨preimages, same⟩

end CollisionFree

namespace Tells

variable {choices : List (Choice creators)} {events before after : List Event} {event : Event}

theorem length_eq (tells : Tells choices events) : events.length = choices.length := by
  induction tells with
  | nil => rfl
  | concat _ _ _ _ ih => rw [List.length_append, List.length_append, ih]; rfl

theorem wirable (tells : Tells choices events) : ∀ event ∈ events, event.IsWirable := by
  induction tells with
  | nil => exact fun _ mem => (List.not_mem_nil mem).elim
  | concat _ _ wirable _ ih =>
    exact List.forall_mem_append.mpr ⟨ih, List.forall_mem_singleton.mpr wirable⟩

theorem follows (tells : Tells choices (before ++ event :: after)) :
    ∃ choice, choices[before.length]? = some choice ∧ Follows before choice event := by
  generalize split : before ++ event :: after = events at tells
  induction tells generalizing after with
  | nil => exact (List.append_ne_nil_of_right_ne_nil _ (List.cons_ne_nil _ _) split).elim
  | @concat choices events choice last tells follows _ _ ih =>
    rcases List.eq_nil_or_concat after with rfl | ⟨between, final, rfl⟩
    · obtain ⟨rfl, rfl⟩ := List.append_singleton_inj.mp split
      refine ⟨choice, ?_, follows⟩
      rw [tells.length_eq, List.getElem?_concat_length]
    · rw [List.concat_eq_append, ← List.cons_append, ← List.append_assoc] at split
      obtain ⟨same, rfl⟩ := List.append_singleton_inj.mp split
      obtain ⟨chosen, there, follows⟩ := ih same
      refine ⟨chosen, ?_, follows⟩
      rw [List.getElem?_append_left (List.getElem?_eq_some_iff.mp there).1, there]

/-- The beginning of a history is told by the first choices. -/
theorem of_prefix (tells : Tells choices events) (begins : before <+: events) :
    ∃ first : List (Choice creators), Tells first before := by
  induction tells with
  | nil => exact ⟨[], List.prefix_nil.mp begins ▸ .nil⟩
  | concat tells follows wirable above ih =>
    rcases List.prefix_concat_iff.mp begins with rfl | earlier
    · exact ⟨_, .concat tells follows wirable above⟩
    · exact ih earlier

/-- No two events of a history share a hash. An event that were there twice would extend, the second
time, something that came no earlier than itself. -/
theorem nodup (tells : Tells choices events) (free : CollisionFree creators events) :
    (events.map DagEvent.hash).Nodup := by
  induction tells with
  | nil => exact List.nodup_nil
  | @concat choices events choice event tells follows wirable _ ih =>
    have distinct := ih (free.mono (List.subset_append_left _ _))
    rw [List.map_append, List.map_singleton]
    refine List.nodup_append.mpr ⟨distinct, List.nodup_singleton _, ?_⟩
    rintro known knownMem _ last rfl
    rw [List.mem_singleton] at last
    obtain ⟨older, mem, same⟩ := List.mem_map.mp knownMem
    obtain rfl := free.eq_of_hash (List.mem_append_left _ mem) List.mem_concat_self
      (tells.wirable older mem) wirable (same.trans last)
    obtain ⟨before, after, rfl⟩ := List.append_of_mem mem
    obtain ⟨chosen, -, earlier⟩ := tells.follows
    obtain ⟨final, latest⟩ := exists_latestOf (List.mem_cons_self : older ∈ older :: after)
    have twice := earlier.selfParent_eq.symm.trans follows.selfParent_eq
    rw [latestOf_append, Option.mem_def.mp latest, Option.some_or, Option.map_some] at twice
    obtain ⟨extended, extendedLatest, same⟩ := Option.map_eq_some_iff.mp twice
    rw [List.map_append, List.nodup_append] at distinct
    exact distinct.2.2 _ (List.mem_map_of_mem (mem_of_latestOf extendedLatest).1)
      _ (List.mem_map_of_mem (mem_of_latestOf latest).1) (congrArg Descriptor.hash same)

end Tells

/-- The choices so far have told the events, and the table knows the latest ones. -/
structure Progress.Agrees (progress : Progress creators) (choices : List (Choice creators)) :
    Prop where
  tells : Tells choices progress.events
  latest_eq : ∀ slot : Fin creators,
    progress.latest.get slot = latestOf (identity slot) progress.events

variable {progress : Progress creators} {done choices : List (Choice creators)}
  {choice : Choice creators}

namespace Progress.Agrees

/-- The parents of a draft are the latest events of the two creators that were chosen. -/
theorem parentOn_draft (agrees : progress.Agrees done) (line : Line) :
    (draft progress choice).parentOn line = (choice.on line).bind fun slot =>
      (latestOf (identity slot) progress.events).map descriptor := by
  simp only [← agrees.latest_eq]
  cases line <;> rfl

theorem hash_ne (agrees : progress.Agrees done) (inRange : choice.InRange)
    (free : CollisionFree creators progress.events) (numbered : creators ≤ UInt64.size) :
    ∀ first ∈ (draft progress choice).selfParent,
      ∀ second ∈ (draft progress choice).otherParent, first.hash ≠ second.hash := by
  intro first firstNamed second secondNamed same
  obtain ⟨own, ownLatest, rfl⟩ :=
    Option.map_eq_some_iff.mp ((agrees.parentOn_draft .self).symm.trans firstNamed)
  obtain ⟨other, chosen, declared⟩ :=
    Option.bind_eq_some_iff.mp ((agrees.parentOn_draft .other).symm.trans secondNamed)
  obtain ⟨foreign, foreignLatest, rfl⟩ := Option.map_eq_some_iff.mp declared
  obtain ⟨ownMem, ownCreator⟩ := mem_of_latestOf ownLatest
  obtain ⟨foreignMem, foreignCreator⟩ := mem_of_latestOf foreignLatest
  obtain rfl := List.inj_on_of_nodup_map (agrees.tells.nodup free) ownMem foreignMem same
  have twice := free.identity_injective numbered (foreignCreator.symm.trans ownCreator)
  exact inRange.other_ne (twice ▸ chosen)

theorem exists_build (agrees : progress.Agrees done) (inRange : choice.InRange)
    (free : CollisionFree creators progress.events) (numbered : creators ≤ UInt64.size)
    (now : Timestamp) :
    ∃ event, (draft progress choice).build now = .ok event ∧ Follows progress.events choice event ∧
      event.IsWirable ∧ Generation.nothingExpired < generation event := by
  obtain ⟨event, built⟩ :=
    Draft.builds_iff.mpr ⟨agrees.hash_ne inRange free numbered, fun _ asked => nomatch asked⟩
  obtain ⟨settled, parents⟩ := Draft.build_eq_ok built
  have parent_eq (line : Line) := (parents line).trans (agrees.parentOn_draft line)
  have creator_eq : event.creator = identity choice.creator := by
    obtain ⟨-, _, -, rfl⟩ := Draft.build_eq_ok_iff.mp built
    rfl
  refine ⟨event, built, ⟨creator_eq, ?_, parent_eq .other⟩, ?_, ?_⟩
  · rw [creator_eq]
    exact parent_eq .self
  · exact Draft.isWirable_of_build built (Nat.two_pow_pos 64)
      fun _ mem => (List.not_mem_nil mem).elim
  · exact Draft.nothingExpired_lt_of_settleGeneration rfl settled

theorem extend (agrees : progress.Agrees done)
    (inRange : choice.InRange) (free : CollisionFree creators progress.events)
    (numbered : creators ≤ UInt64.size) (time : Nat) :
    (History.extend progress time choice).Agrees (done ++ [choice]) := by
  obtain ⟨event, built, follows, wirable, above⟩ :=
    agrees.exists_build inRange free numbered (Int64.ofNat time)
  have extended : History.extend progress time choice =
      { latest := progress.latest.set choice.creator (some event)
        events := progress.events ++ [event] } := by
    rw [History.extend, built]
  rw [extended]
  refine ⟨.concat agrees.tells follows wirable above, fun slot => ?_⟩
  rw [latestOf_concat, follows.creator_eq, ← agrees.latest_eq]
  refine (Vector.getElem_set choice.creator.isLt slot.isLt).trans ?_
  simp only [(free.identity_injective numbered).eq_iff, Fin.ext_iff]
  rfl

end Progress.Agrees

theorem prefix_play (time : Nat) (choices : List (Choice creators)) :
    progress.events <+: (play progress time choices).events := by
  induction choices generalizing progress time with
  | nil => exact List.prefix_rfl
  | cons choice rest ih =>
    apply List.IsPrefix.trans _ (ih (time + 1))
    unfold extend
    split
    · exact List.prefix_rfl
    · exact List.prefix_append _ _

theorem Progress.Agrees.play (agrees : progress.Agrees done) (time : Nat)
    (inRange : ∀ choice ∈ choices, choice.InRange) (numbered : creators ≤ UInt64.size)
    (free : CollisionFree creators (play progress time choices).events) :
    (History.play progress time choices).Agrees (done ++ choices) := by
  induction choices generalizing progress done time with
  | nil => exact (List.append_nil done).symm ▸ agrees
  | cons choice rest ih =>
    obtain ⟨here, later⟩ := List.forall_mem_cons.mp inRange
    have soFar := free.mono (prefix_play time (choice :: rest)).subset
    have next := ih (agrees.extend here soFar numbered time) (time + 1) later free
    rw [List.append_assoc] at next
    exact next

theorem tells_ofChoices (inRange : ∀ choice ∈ choices, choice.InRange)
    (numbered : creators ≤ UInt64.size) (free : CollisionFree creators (ofChoices choices)) :
    Tells choices (ofChoices choices) := by
  have start : Progress.Agrees ({} : Progress creators) [] :=
    ⟨.nil, fun slot => Vector.getElem_replicate slot.isLt⟩
  exact (start.play 0 inRange numbered free).tells

end History
end Hashgraph
