import Mathlib.Data.List.Basic
import Mathlib.Data.Set.Insert
import Hashgraph.Event.Basic

/-! Histories: sets of events as honest members make them. The hash identifies the event, the
generation that an event declares for a parent is the parent's own, and generations rise from the
parents to the event. A parent may lie outside the set. -/

namespace Hashgraph

/-- The two lines on which an event can name a parent. -/
inductive Line where
  | self
  | other
deriving DecidableEq

theorem Line.exists_iff {holds : Line → Prop} :
    (∃ line, holds line) ↔ holds .self ∨ holds .other := by
  constructor
  · rintro ⟨line, here⟩
    cases line with
    | self => exact .inl here
    | other => exact .inr here
  · rintro (here | here)
    · exact ⟨.self, here⟩
    · exact ⟨.other, here⟩

variable {ε : Type} [DagEvent ε]

namespace DagEvent

def parent (line : Line) (event : ε) : Option Descriptor :=
  match line with
  | .self => selfParent event
  | .other => otherParent event

/-- The event names this hash as its parent on this line. -/
def Names (line : Line) (event : ε) (hash : EventHash) : Prop :=
  (parent line event).map Descriptor.hash = some hash

instance (line : Line) (event : ε) (hash : EventHash) : Decidable (Names line event hash) :=
  inferInstanceAs (Decidable (_ = _))

theorem names_iff {line : Line} {event : ε} {hash : EventHash} :
    Names line event hash ↔ ∃ descriptor, parent line event = some descriptor ∧
      descriptor.hash = hash := Option.map_eq_some_iff

end DagEvent

open DagEvent

structure IsHistory (events : Set ε) : Prop where
  hash_inj : ∀ {first second : ε}, first ∈ events → second ∈ events →
    hash first = hash second → first = second
  declared : ∀ {line : Line} {child older : ε} {descriptor : Descriptor}, child ∈ events →
    older ∈ events → parent line child = some descriptor → descriptor.hash = hash older →
    descriptor.generation = generation older
  rises : ∀ {line : Line} {child : ε} {descriptor : Descriptor}, child ∈ events →
    parent line child = some descriptor → descriptor.generation < generation child

/-- Generations rise along the self-parents within the set, whatever descriptors declare. -/
def IsAscending (events : Set ε) : Prop :=
  ∀ {child older : ε}, child ∈ events → older ∈ events → Names .self child (hash older) →
    generation older < generation child

/-- Generations rise along both lines within the set, whatever descriptors declare. -/
def IsCausal (events : Set ε) : Prop :=
  ∀ {line : Line} {child older : ε}, child ∈ events → older ∈ events →
    Names line child (hash older) → generation older < generation child

def IsModest (events : Set ε) : Prop :=
  ∀ {line : Line} {child older : ε} {descriptor : Descriptor}, child ∈ events → older ∈ events →
    parent line child = some descriptor → descriptor.hash = hash older →
    descriptor.generation ≤ generation older

theorem IsAscending.mono {events fewer : Set ε} (ascending : IsAscending events)
    (subset : fewer ⊆ events) : IsAscending fewer :=
  fun child older => ascending (subset child) (subset older)

theorem IsCausal.isAscending {events : Set ε} (causal : IsCausal events) : IsAscending events :=
  fun childMem olderMem names => causal childMem olderMem names

theorem IsModest.mono {events fewer : Set ε} (modest : IsModest events)
    (subset : fewer ⊆ events) : IsModest fewer :=
  fun child older => modest (subset child) (subset older)

/-- No two of the events extend the same one. -/
def IsUnforked (events : Set ε) : Prop :=
  ∀ {first second : ε} {hash : EventHash}, first ∈ events → second ∈ events →
    Names .self first hash → Names .self second hash → first = second

namespace IsHistory

variable {events : Set ε} {line : Line} {child older : ε}

theorem lt_of_names (history : IsHistory events) (childMem : child ∈ events)
    (olderMem : older ∈ events) (names : Names line child (hash older)) :
    generation older < generation child := by
  obtain ⟨descriptor, named, same⟩ := names_iff.mp names
  exact history.declared childMem olderMem named same ▸ history.rises childMem named

theorem isCausal (history : IsHistory events) : IsCausal events :=
  fun childMem olderMem names => history.lt_of_names childMem olderMem names

theorem isAscending (history : IsHistory events) : IsAscending events :=
  fun childMem olderMem names => history.lt_of_names childMem olderMem names

theorem isModest (history : IsHistory events) : IsModest events :=
  fun child older named same => Int64.le_of_eq (history.declared child older named same)

/-- An event without parents and one that extends it. -/
theorem pair {first second : ε} (rootless : ∀ line, parent line first = none)
    (extending : parent .self second = some (descriptor first))
    (single : parent .other second = none) (differ : hash first ≠ hash second)
    (above : generation first < generation second) :
    IsHistory {event | event ∈ [first, second]} := by
  have mem_iff {event : ε} : event ∈ {event | event ∈ [first, second]} ↔
      event = first ∨ event = second := by
    simp only [Set.mem_ofPred_eq, List.mem_cons, List.not_mem_nil, or_false]
  have parent_eq {line : Line} {event : ε} {named : Descriptor} (mem : event = first ∨ event = second)
      (names : parent line event = some named) : event = second ∧ named = descriptor first := by
    rcases mem with rfl | rfl
    · rw [rootless] at names
      contradiction
    · cases line with
      | self => exact ⟨rfl, Option.some.inj (names.symm.trans extending)⟩
      | other =>
        rw [single] at names
        contradiction
  refine ⟨?_, ?_, ?_⟩
  · intro left right leftMem rightMem same
    rcases mem_iff.mp leftMem with rfl | rfl <;> rcases mem_iff.mp rightMem with rfl | rfl
    · rfl
    · exact (differ same).elim
    · exact (differ same.symm).elim
    · rfl
  · intro line child older named childMem olderMem names same
    obtain ⟨-, rfl⟩ := parent_eq (mem_iff.mp childMem) names
    rcases mem_iff.mp olderMem with rfl | rfl
    · rfl
    · exact (differ same).elim
  · intro line child named childMem names
    obtain ⟨rfl, rfl⟩ := parent_eq (mem_iff.mp childMem) names
    exact above

/-- For the events of a list the conditions can be decided. -/
theorem of_list_iff {listed : List ε} : IsHistory {event | event ∈ listed} ↔
    (∀ first ∈ listed, ∀ second ∈ listed, hash first = hash second → first = second) ∧
      ∀ line ∈ [Line.self, Line.other], ∀ child ∈ listed, ∀ descriptor ∈ parent line child,
        descriptor.generation < generation child ∧ ∀ older ∈ listed,
          descriptor.hash = hash older → descriptor.generation = generation older := by
  have every (line : Line) : line ∈ [Line.self, Line.other] := by cases line <;> simp
  constructor
  · intro history
    refine ⟨fun first mem second => history.hash_inj mem, ?_⟩
    intro line _ child mem descriptor named
    exact ⟨history.rises mem named, fun older olderMem => history.declared mem olderMem named⟩
  · rintro ⟨injective, parents⟩
    refine ⟨fun first second => injective _ first _ second, ?_, ?_⟩
    · intro line child older descriptor mem olderMem named
      exact (parents line (every line) child mem descriptor named).2 older olderMem
    · intro line child descriptor mem named
      exact (parents line (every line) child mem descriptor named).1

instance [DecidableEq ε] (listed : List ε) : Decidable (IsHistory {event | event ∈ listed}) :=
  decidable_of_iff _ of_list_iff.symm

end IsHistory

namespace IsUnforked

theorem mono {events fewer : Set ε} (unforked : IsUnforked events) (subset : fewer ⊆ events) :
    IsUnforked fewer :=
  fun first second => unforked (subset first) (subset second)

theorem of_list_iff {listed : List ε} : IsUnforked {event | event ∈ listed} ↔
    ∀ first ∈ listed, ∀ second ∈ listed, ∀ descriptor ∈ parent .self first,
      Names .self second descriptor.hash → first = second := by
  constructor
  · intro unforked first firstMem second secondMem descriptor named names
    exact unforked firstMem secondMem (names_iff.mpr ⟨descriptor, named, rfl⟩) names
  · intro unforked first second hash firstMem secondMem firstNames secondNames
    obtain ⟨descriptor, named, rfl⟩ := names_iff.mp firstNames
    exact unforked first firstMem second secondMem descriptor named secondNames

instance [DecidableEq ε] (listed : List ε) : Decidable (IsUnforked {event | event ∈ listed}) :=
  decidable_of_iff _ of_list_iff.symm

end IsUnforked

/-- An event without parents, and one that names it as its only parent and declares a generation
for it. -/
structure IsExtension (older younger : ε) (declared : Generation) : Prop where
  rootless : ∀ line, parent line older = none
  named : parent .self younger = some ⟨hash older, declared⟩
  single : parent .other younger = none
  differ : hash older ≠ hash younger

namespace IsExtension

variable {older younger : ε} {declared : Generation}

theorem eq_of_parent (extension : IsExtension older younger declared) {line : Line} {child : ε}
    {descriptor : Descriptor} (mem : child ∈ [older, younger])
    (named : parent line child = some descriptor) :
    child = younger ∧ descriptor = ⟨hash older, declared⟩ := by
  rcases List.mem_pair.mp mem with rfl | rfl
  · rw [extension.rootless] at named
    contradiction
  · cases line with
    | self =>
      rw [extension.named] at named
      exact ⟨rfl, (Option.some.inj named).symm⟩
    | other =>
      rw [extension.single] at named
      contradiction

theorem eq_of_hash (extension : IsExtension older younger declared) {event : ε}
    (mem : event ∈ [older, younger]) (same : hash older = hash event) : event = older := by
  rcases List.mem_pair.mp mem with rfl | rfl
  · rfl
  · exact (extension.differ same).elim

theorem injOn (extension : IsExtension older younger declared) :
    Set.InjOn DagEvent.hash {event | event ∈ [older, younger]} := by
  intro first firstMem second secondMem same
  rcases List.mem_pair.mp firstMem with rfl | rfl
  · exact (extension.eq_of_hash secondMem same).symm
  · rcases List.mem_pair.mp secondMem with rfl | rfl
    · exact (extension.differ same.symm).elim
    · rfl

theorem isAscending (extension : IsExtension older younger declared)
    (rises : generation older < generation younger) :
    IsAscending {event | event ∈ [older, younger]} := by
  intro child event childMem mem names
  obtain ⟨descriptor, named, same⟩ := names_iff.mp names
  obtain ⟨rfl, rfl⟩ := extension.eq_of_parent childMem named
  rw [extension.eq_of_hash mem same]
  exact rises

theorem isModest (extension : IsExtension older younger declared)
    (modest : declared ≤ generation older) : IsModest {event | event ∈ [older, younger]} := by
  intro line child event descriptor childMem mem named same
  obtain ⟨rfl, rfl⟩ := extension.eq_of_parent childMem named
  rw [extension.eq_of_hash mem same]
  exact modest

end IsExtension

def EventHash.filled (byte : UInt8) : EventHash := ⟨Vector.replicate 32 byte⟩

def forkedOutlines : List Outline :=
  [⟨.filled 1, 0, none, none⟩,
    ⟨.filled 2, 0, none, none⟩,
    ⟨.filled 3, 1, some ⟨.filled 1, 0⟩, some ⟨.filled 2, 0⟩⟩,
    ⟨.filled 4, 1, some ⟨.filled 1, 0⟩, none⟩]

def forkedOutline (place : Fin 4) : Outline := forkedOutlines.get place

theorem forkedOutline_mem (place : Fin 4) : forkedOutline place ∈ {event | event ∈ forkedOutlines} :=
  List.get_mem forkedOutlines place

example : IsHistory {event | event ∈ forkedOutlines} ∧
    ¬ IsUnforked {event | event ∈ forkedOutlines} := by decide +kernel

end Hashgraph
