import Hashgraph.Event.Draft
import Hashgraph.Proofs.Event.History

/-! Building events from drafts. The calls that make up a draft count by the last of their kind. The
generation of a built event is above those that its parents declare, unless it was left open and a
parent declares the top of the range, where the successor saturates. -/

namespace Hashgraph.Draft

inductive Call where
  | parent (line : Line) (named : Descriptor)
  | generation (asked : Generation)
  | transaction (transaction : Bytes)
  | transactions (transactions : List Bytes)
  | timestamp (moment : Timestamp)

def Call.parent? (line : Line) : Call → Option Descriptor
  | .parent on named => if on = line then some named else none
  | _ => none

def Call.generation? : Call → Option Generation
  | .generation asked => some asked
  | _ => none

def call (draft : Draft) : Call → Draft
  | .parent .self named => { draft with selfParent := some named }
  | .parent .other named => { draft with otherParent := some named }
  | .generation asked => { draft with generation := some asked }
  | .transaction transaction => draft.addTransaction transaction
  | .transactions transactions => { draft with transactions }
  | .timestamp moment => { draft with timestamp := some moment }

def ofCalls (creator : CreatorId) (calls : List Call) : Draft := calls.foldl call { creator }

def parentOn (line : Line) (draft : Draft) : Option Descriptor :=
  match line with
  | .self => draft.selfParent
  | .other => draft.otherParent

section Calls

variable {α : Type} {field : Draft → Option α} {sets : Call → Option α}

/-- What a kind of call sets is what the last of these calls has set. -/
theorem foldl_call (step : ∀ draft next, field (call draft next) = (sets next).or (field draft))
    (calls : List Call) (draft : Draft) :
    field (calls.foldl call draft) = (calls.filterMap sets).getLast?.or (field draft) := by
  induction calls generalizing draft with
  | nil => rfl
  | cons next rest ih =>
    rw [List.foldl_cons, ih, step, List.filterMap_cons]
    cases sets next with
    | none => rfl
    | some value =>
      rw [List.getLast?_cons]
      cases (rest.filterMap sets).getLast? <;> rfl

theorem parentOn_ofCalls (creator : CreatorId) (calls : List Call) (line : Line) :
    (ofCalls creator calls).parentOn line = (calls.filterMap (Call.parent? line)).getLast? := by
  have step (draft : Draft) (next : Call) :
      (draft.call next).parentOn line = (next.parent? line).or (draft.parentOn line) := by
    cases next with
    | parent on named => cases on <;> cases line <;> rfl
    | _ => rfl
  have start : parentOn line { creator } = none := by cases line <;> rfl
  rw [ofCalls, foldl_call step, start, Option.or_none]

theorem generation_ofCalls (creator : CreatorId) (calls : List Call) :
    (ofCalls creator calls).generation = (calls.filterMap Call.generation?).getLast? := by
  have step (draft : Draft) (next : Call) :
      (draft.call next).generation = next.generation?.or draft.generation := by
    cases next with
    | parent on named => cases on <;> rfl
    | _ => rfl
  rw [ofCalls, foldl_call step, Option.or_none]

end Calls

variable {draft : Draft} {generation : Generation}

theorem mem_parents {named : Descriptor} :
    named ∈ draft.parents ↔ ∃ line, named ∈ draft.parentOn line := by
  rw [parents, List.mem_append, Option.mem_toList, Option.mem_toList, Line.exists_iff]
  rfl

theorem forall_mem_parents {holds : Descriptor → Prop} :
    (∀ named ∈ draft.parents, holds named) ↔ ∀ line, ∀ named ∈ draft.parentOn line, holds named := by
  constructor
  · exact fun all line named mem => all named (mem_parents.mpr ⟨line, mem⟩)
  · intro all named mem
    obtain ⟨line, declared⟩ := mem_parents.mp mem
    exact all line named declared

theorem sharedParent?_eq_none :
    draft.sharedParent? = none ↔
      ∀ first ∈ draft.selfParent, ∀ second ∈ draft.otherParent, first.hash ≠ second.hash := by
  unfold sharedParent?
  cases draft.selfParent <;> cases draft.otherParent <;> simp

theorem parents_of_parentGeneration (none : draft.parentGeneration? = none) : draft.parents = [] :=
  List.map_eq_nil_iff.mp (List.max?_eq_none_iff.mp none)

theorem le_parentGeneration {highest : Generation} (found : draft.parentGeneration? = some highest) :
    ∀ named ∈ draft.parents, named.generation ≤ highest :=
  fun _ mem => (List.max?_eq_some_iff.mp found).2 _ (List.mem_map_of_mem mem)

theorem forall_parents_lt {highest : Generation} (found : draft.parentGeneration? = some highest) :
    (∀ named ∈ draft.parents, named.generation < generation) ↔ highest < generation := by
  constructor
  · intro above
    obtain ⟨named, mem, rfl⟩ := List.mem_map.mp (List.max?_eq_some_iff.mp found).1
    exact above named mem
  · exact fun above named mem => Int64.lt_of_le_of_lt (le_parentGeneration found named mem) above

theorem settles_iff :
    (∃ generation, draft.settleGeneration = .ok generation) ↔
      ∀ asked ∈ draft.generation, ∀ named ∈ draft.parents, named.generation < asked := by
  unfold settleGeneration
  cases draft.generation with
  | none => cases draft.parentGeneration? <;> simp
  | some asked =>
    cases found : draft.parentGeneration? with
    | none => simp [parents_of_parentGeneration found]
    | some highest =>
      simp only [Option.mem_some_iff, forall_eq', forall_parents_lt found]
      by_cases low : asked ≤ highest
      · simp [low, Int64.not_lt.mpr low]
      · simp [low, Int64.not_le.mp low]

theorem lt_next_or_eq_max {declared highest : Generation} (below : declared ≤ highest) :
    declared < highest.next ∨ declared = Int64.maxValue ∧ highest.next = Int64.maxValue := by
  have bottom := Int64.minValue_le_toInt highest
  have top := Int64.toInt_le highest
  simp only [Int64.le_iff_toInt_le, Int64.lt_iff_toInt_lt, ← Int64.toInt_inj, Generation.next,
    Generation.toInt_ofIntClamp] at *
  omega

theorem eq_of_settleGeneration {asked : Generation} (explicit : draft.generation = some asked)
    (settled : draft.settleGeneration = .ok generation) : generation = asked := by
  unfold settleGeneration at settled
  rw [explicit] at settled
  cases found : draft.parentGeneration? with
  | none =>
    rw [found] at settled
    exact (Except.ok.inj settled).symm
  | some highest =>
    rw [found] at settled
    dsimp only at settled
    split at settled
    · contradiction
    · exact (Except.ok.inj settled).symm

theorem lt_of_settleGeneration {asked : Generation} (explicit : draft.generation = some asked)
    (settled : draft.settleGeneration = .ok generation) :
    ∀ named ∈ draft.parents, named.generation < generation := by
  rw [eq_of_settleGeneration explicit settled]
  exact settles_iff.mp ⟨generation, settled⟩ asked explicit

/-- Only a generation that was left open comes to stand at a parent's, at the top of the range. -/
theorem lt_or_eq_max_of_settleGeneration (settled : draft.settleGeneration = .ok generation) :
    ∀ named ∈ draft.parents, named.generation < generation ∨
      draft.generation = none ∧ named.generation = Int64.maxValue ∧
        generation = Int64.maxValue := by
  intro named mem
  cases explicit : draft.generation with
  | some asked => exact .inl (lt_of_settleGeneration explicit settled named mem)
  | none =>
    unfold settleGeneration at settled
    rw [explicit] at settled
    cases found : draft.parentGeneration? with
    | none =>
      rw [parents_of_parentGeneration found] at mem
      contradiction
    | some highest =>
      rw [found] at settled
      cases settled
      exact (lt_next_or_eq_max (le_parentGeneration found named mem)).imp_right fun top => ⟨rfl, top⟩

def content (draft : Draft) (generation : Generation) (now : Timestamp) : Content where
  creator := draft.creator
  generation := generation
  selfParent := draft.selfParent
  otherParent := draft.otherParent
  transactions := draft.transactions
  timestamp := draft.timestamp.getD now

theorem build_eq_ok_iff {now : Timestamp} {event : Event} :
    draft.build now = .ok event ↔ draft.sharedParent? = none ∧
      ∃ generation, draft.settleGeneration = .ok generation ∧
        (draft.content generation now).toEvent = event := by
  unfold build
  cases draft.sharedParent? with
  | some hash => simp
  | none =>
    cases draft.settleGeneration with
    | error error => simp
    | ok generation => simp [content]

theorem build_eq_ok {now : Timestamp} {event : Event} (built : draft.build now = .ok event) :
    draft.settleGeneration = .ok event.generation ∧
      ∀ line, DagEvent.parent line event = draft.parentOn line := by
  obtain ⟨-, generation, settled, rfl⟩ := build_eq_ok_iff.mp built
  refine ⟨settled, fun line => ?_⟩
  cases line <;> rfl

theorem builds_iff {now : Timestamp} :
    (∃ event, draft.build now = .ok event) ↔
      (∀ first ∈ draft.selfParent, ∀ second ∈ draft.otherParent, first.hash ≠ second.hash) ∧
      ∀ asked ∈ draft.generation, ∀ named ∈ draft.parents, named.generation < asked := by
  rw [← sharedParent?_eq_none, ← settles_iff]
  constructor
  · rintro ⟨event, built⟩
    obtain ⟨distinct, generation, settled, -⟩ := build_eq_ok_iff.mp built
    exact ⟨distinct, generation, settled⟩
  · rintro ⟨distinct, generation, settled⟩
    exact ⟨_, build_eq_ok_iff.mpr ⟨distinct, generation, settled, rfl⟩⟩

/-- Whatever calls make up a draft: it is built exactly when the last parents that they declare
differ and the last generation that they ask for is above both. A built event has these parents and
is above them, unless no generation is asked for and a parent declares the top of the range: then
the event stands there too. -/
theorem build_ofCalls (creator : CreatorId) (calls : List Call) (now : Timestamp) :
    let built := (ofCalls creator calls).build now
    let declared := fun line => (calls.filterMap (Call.parent? line)).getLast?
    let asked := (calls.filterMap Call.generation?).getLast?
    ((∃ event, built = .ok event) ↔
      (∀ first ∈ declared .self, ∀ second ∈ declared .other, first.hash ≠ second.hash) ∧
      ∀ generation ∈ asked, ∀ line, ∀ named ∈ declared line, named.generation < generation) ∧
    ∀ event, built = .ok event → ∀ line, DagEvent.parent line event = declared line ∧
      ∀ named ∈ declared line, named.generation < event.generation ∨
        asked = none ∧ named.generation = Int64.maxValue ∧ event.generation = Int64.maxValue := by
  intro built declared asked
  have lines (line : Line) : (ofCalls creator calls).parentOn line = declared line :=
    parentOn_ofCalls creator calls line
  have own : (ofCalls creator calls).selfParent = declared .self := lines .self
  have other : (ofCalls creator calls).otherParent = declared .other := lines .other
  have explicit : (ofCalls creator calls).generation = asked := generation_ofCalls creator calls
  constructor
  · rw [builds_iff, own, other, explicit]
    simp only [forall_mem_parents, lines]
  · intro event success line
    obtain ⟨settled, parents⟩ := build_eq_ok success
    refine ⟨(parents line).trans (lines line), fun named mem => ?_⟩
    rw [← explicit]
    apply lt_or_eq_max_of_settleGeneration settled named
    exact mem_parents.mpr ⟨line, (lines line).symm ▸ mem⟩

/-- At the top of the range an event whose generation is left open is no higher than its parent. -/
theorem build_ofCalls_top :
    let top : Descriptor := ⟨.zero, Int64.maxValue⟩
    ∃ event, (ofCalls ⟨.replicate 32 0⟩ [.parent .self top]).build 0 = .ok event ∧
      DagEvent.selfParent event = some top ∧ ¬ top.generation < event.generation := by
  intro top
  refine ⟨_, build_eq_ok_iff.mpr ⟨rfl, _, rfl, rfl⟩, rfl, ?_⟩
  decide

end Hashgraph.Draft
