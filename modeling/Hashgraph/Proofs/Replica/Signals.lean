import Hashgraph.Proofs.Event.RoundTrip
import Hashgraph.Proofs.Replica.Consistency

/-! Replicas that take in whatever they are sent. Decoding verifies the hash of an event and nothing
that the event says of generations. A replica stays consistent as long as generations rise along
the self-parents and no event declares a parent to be higher than it is. -/

namespace Hashgraph

open DagEvent ShadowGraph

/-- What a replica hears: bytes that a peer sends, or that its own watermark moves. -/
inductive Signal where
  | bytes (input : Bytes)
  | expireTo (watermark : Generation)

namespace Signal

def decoded (signals : List Signal) : Set Event :=
  {event | ∃ input, .bytes input ∈ signals ∧ Event.decode input = .ok event}

def watermarks (signals : List Signal) : List Generation :=
  signals.filterMap fun
    | .bytes _ => none
    | .expireTo watermark => some watermark

end Signal

namespace Replica

open Signal

/-- Offers what the bytes decode to, if they do. -/
def hear (replica : Replica Event) : Signal → Replica Event
  | .bytes input =>
    match Event.decode input with
    | .ok event => (replica.addEvent event).2
    | .error _ => replica
  | .expireTo watermark => (replica.expireTo watermark).2

/-- The events that intake accepts on the way. -/
def admitted (replica : Replica Event) : List Signal → Set Event
  | [] => ∅
  | .bytes input :: rest =>
    {event | Event.decode input = .ok event ∧ replica.classify event = .insertable} ∪
      (replica.hear (.bytes input)).admitted rest
  | .expireTo watermark :: rest => (replica.hear (.expireTo watermark)).admitted rest

variable {events : Set Event} {replica : Replica Event} {signals heard : List Signal}

theorem admitted_append (heard rest : List Signal) : replica.admitted (heard ++ rest) =
    replica.admitted heard ∪ (heard.foldl hear replica).admitted rest := by
  induction heard generalizing replica with
  | nil => exact (Set.empty_union _).symm
  | cons signal heard ih =>
    cases signal with
    | bytes input =>
      simp only [List.cons_append, admitted, ih, List.foldl_cons]
      exact (Set.union_assoc _ _ _).symm
    | expireTo watermark => exact ih

theorem admitted_subset_decoded : replica.admitted signals ⊆ decoded signals := by
  induction signals generalizing replica with
  | nil => exact Set.empty_subset _
  | cons signal rest ih =>
    have later : decoded rest ⊆ decoded (signal :: rest) := by
      rintro event ⟨input, mem, accepted⟩
      exact ⟨input, List.mem_cons_of_mem _ mem, accepted⟩
    cases signal with
    | bytes input =>
      rintro event (⟨accepted, -⟩ | mem)
      · exact ⟨input, List.mem_cons_self, accepted⟩
      · exact later (ih mem)
    | expireTo watermark => exact fun event mem => later (ih mem)

theorem hear_bytes_watermark (input : Bytes) :
    (replica.hear (.bytes input)).watermark = replica.watermark := by
  rw [hear]
  split
  · exact addEvent_watermark
  · rfl

theorem hear_encode {event : Event} (wirable : event.IsWirable) :
    replica.hear (.bytes event.encode) = replica.perform (.add event) := by
  rw [hear, wirable.decode_encode]
  rfl

namespace Settled

theorem hear_bytes (settled : Settled events replica) (ascending : IsAscending events)
    {input : Bytes} (admits : ∀ event, Event.decode input = .ok event →
      replica.classify event = .insertable → event ∈ events) :
    Settled events (replica.hear (.bytes input)) := by
  rw [hear]
  split
  · rename_i event accepted
    by_cases insertable : replica.classify event = .insertable
    · exact settled.addEvent ascending (admits event accepted insertable)
    · rw [addEvent_of_refused insertable]
      exact settled
  · exact settled

theorem foldl_hear (settled : Settled events replica) (ascending : IsAscending events)
    (modest : IsModest events) (admits : replica.admitted signals ⊆ events)
    (rising : (watermarks signals).Pairwise (· ≤ ·))
    (raises : ∀ watermark ∈ watermarks signals, replica.watermark ≤ watermark) :
    Settled events (signals.foldl hear replica) := by
  induction signals generalizing replica with
  | nil => exact settled
  | cons signal rest ih =>
    cases signal with
    | bytes input =>
      obtain ⟨now, later⟩ := Set.union_subset_iff.mp admits
      have first : Settled events (replica.hear (.bytes input)) :=
        settled.hear_bytes ascending fun event accepted insertable => now ⟨accepted, insertable⟩
      apply ih first later rising
      rw [hear_bytes_watermark]
      exact raises
    | expireTo watermark =>
      have first : Settled events (replica.hear (.expireTo watermark)) :=
        settled.expireTo ascending modest (raises watermark List.mem_cons_self)
      obtain ⟨least, rising⟩ := List.pairwise_cons.mp rising
      apply ih first admits rising
      rw [show (replica.hear (.expireTo watermark)).watermark = watermark from expireTo_watermark]
      exact least

end Settled

/-- Whatever bytes come in between whatever rising watermarks, the replica passes the consistency
check in every state. -/
theorem checkConsistency_of_signals
    (ascending : IsAscending ((∅ : Replica Event).admitted signals))
    (modest : IsModest ((∅ : Replica Event).admitted signals))
    (rising : (watermarks signals).Pairwise (· ≤ ·)) (part : heard <+: signals) :
    (heard.foldl hear ∅).checkConsistency = .ok () := by
  have risesHere : (watermarks heard).Pairwise (· ≤ ·) :=
    rising.sublist (part.filterMap _).sublist
  have admits : (∅ : Replica Event).admitted heard ⊆ (∅ : Replica Event).admitted signals := by
    obtain ⟨rest, rfl⟩ := part
    rw [admitted_append]
    exact Set.subset_union_left
  have settled : Settled ((∅ : Replica Event).admitted signals) (heard.foldl hear ∅) :=
    Settled.empty.foldl_hear ascending modest admits risesHere
      fun watermark _ => Int64.minValue_le watermark
  exact checkConsistency_eq_ok.mpr (settled.toTracked.isConsistent settled.isSettled)

section Sending

variable {older younger : Event} {watermark : Generation}

/-- Two encoded events and a sweep. -/
def sending (older younger : Event) (watermark : Generation) : List Signal :=
  [.bytes older.encode, .bytes younger.encode, .expireTo watermark]

theorem decoded_sending (olderWirable : older.IsWirable) (youngerWirable : younger.IsWirable) :
    decoded (sending older younger watermark) = {event | event ∈ [older, younger]} := by
  ext event
  simp only [decoded, sending, Set.mem_ofPred_eq, List.mem_cons, Signal.bytes.injEq, reduceCtorEq,
    List.not_mem_nil, or_false]
  constructor
  · rintro ⟨input, rfl | rfl, accepted⟩
    · rw [olderWirable.decode_encode] at accepted
      exact .inl (Except.ok.inj accepted).symm
    · rw [youngerWirable.decode_encode] at accepted
      exact .inr (Except.ok.inj accepted).symm
  · rintro (rfl | rfl)
    · exact ⟨_, .inl rfl, olderWirable.decode_encode⟩
    · exact ⟨_, .inr rfl, youngerWirable.decode_encode⟩

theorem pairwise_watermarks_sending :
    (watermarks (sending older younger watermark)).Pairwise (· ≤ ·) :=
  List.pairwise_singleton _ _

end Sending

section Examples

def rootContent : Content := ⟨⟨Vector.replicate 32 1⟩, 5, none, none, [], 0⟩

def childContent (generation declared : Generation) : Content :=
  ⟨⟨Vector.replicate 32 1⟩, generation, some ⟨rootContent.digest, declared⟩, none, [], 0⟩

variable {own declared watermark : Generation}

theorem isWirable_root : rootContent.toEvent.IsWirable :=
  Content.isWirable_toEvent ⟨Nat.two_pow_pos 64, fun _ mem => (List.not_mem_nil mem).elim⟩

theorem isWirable_child : (childContent own declared).toEvent.IsWirable :=
  Content.isWirable_toEvent ⟨Nat.two_pow_pos 64, fun _ mem => (List.not_mem_nil mem).elim⟩

theorem isExtension_child (differ : rootContent.digest ≠ (childContent own declared).digest) :
    IsExtension rootContent.toEvent (childContent own declared).toEvent declared where
  rootless line := by cases line <;> rfl
  named := rfl
  single := rfl
  differ := differ

theorem checkConsistency_of_honest_child :
    let signals := sending rootContent.toEvent (childContent 6 5).toEvent 5
    IsAscending ((∅ : Replica Event).admitted signals) ∧
      IsModest ((∅ : Replica Event).admitted signals) ∧
      (watermarks signals).Pairwise (· ≤ ·) ∧
      (signals.foldl hear ∅).checkConsistency = .ok () := by
  intro signals
  have extension : IsExtension rootContent.toEvent (childContent 6 5).toEvent 5 :=
    isExtension_child (by decide +kernel)
  have admits : (∅ : Replica Event).admitted signals ⊆
      {event | event ∈ [rootContent.toEvent, (childContent 6 5).toEvent]} := by
    rw [← decoded_sending isWirable_root isWirable_child]
    exact admitted_subset_decoded
  have ascending : IsAscending ((∅ : Replica Event).admitted signals) :=
    IsAscending.mono (extension.isAscending (show (5 : Generation) < 6 by decide)) admits
  have modest : IsModest ((∅ : Replica Event).admitted signals) :=
    IsModest.mono (extension.isModest (show (5 : Generation) ≤ 5 by decide)) admits
  exact ⟨ascending, modest, pairwise_watermarks_sending,
    checkConsistency_of_signals ascending modest pairwise_watermarks_sending (List.prefix_refl _)⟩

end Examples

end Replica
end Hashgraph
