import Mathlib.Tactic.Tauto
import Hashgraph.Event.Draft

/-! Reading back what was written. Each reader of the byte form takes off exactly what its writer
puts, so an authentic event is read back from its encoding whatever follows. Lengths are written
in 64 bits; an event with longer lists has no byte form that can be read back. -/

namespace Hashgraph

theorem bind_ok_iff {ε α β : Type} {first : Except ε α} {second : α → Except ε β} {result : β} :
    (first >>= second) = .ok result ↔ ∃ value, first = .ok value ∧ second value = .ok result := by
  cases first with
  | error error => simp [bind, Except.bind]
  | ok value => simp [bind, Except.bind]

namespace Wire

/-- The reader takes off exactly what the writer puts for a value that fits. -/
def Reads {α : Type} (take : Reader α) (put : α → Bytes) (fits : α → Prop) : Prop :=
  ∀ (input rest : Bytes) (value : α),
    take input = .ok (value, rest) ↔ fits value ∧ input = put value ++ rest

theorem splitBytes?_eq_some {count : Nat} {input front rest : Bytes} :
    splitBytes? count input = some (front, rest) ↔ front.length = count ∧ input = front ++ rest := by
  induction count generalizing input front with
  | zero => cases front <;> simp [splitBytes?, eq_comm]
  | succ count ih =>
    cases input with
    | nil => cases front <;> simp [splitBytes?]
    | cons byte input =>
      cases front with
      | nil =>
        simp only [splitBytes?]
        split <;> simp
      | cons first front =>
        have split := @ih input front
        simp only [splitBytes?]
        cases found : splitBytes? count input with
        | none =>
          rw [found] at split
          simp only [reduceCtorEq, false_iff, not_and] at split ⊢
          intro sized same
          exact split (Nat.succ.inj sized) (List.cons.inj same).2
        | some parts =>
          obtain ⟨head, tail⟩ := parts
          rw [found] at split
          simp only [Option.some.injEq, Prod.mk.injEq, List.cons.injEq, List.length_cons,
            Nat.add_right_cancel_iff, List.cons_append] at split ⊢
          tauto

theorem takeBytes_reads (count : Nat) :
    Reads (takeBytes count) id fun bytes => bytes.length = count := by
  intro input rest bytes
  unfold takeBytes
  split
  · rename_i split found
    rw [Except.ok.injEq, id, ← splitBytes?_eq_some, found, Option.some.injEq]
  · rename_i missing
    simp [← splitBytes?_eq_some, missing]

theorem takeNumber_reads (width : Nat) :
    Reads (takeNumber width) (Bytes.littleEndian width) fun number =>
      number < Bytes.capacity width := by
  intro input rest number
  simp only [takeNumber, bind_ok_iff, takeBytes_reads width input, Prod.exists]
  constructor
  · rintro ⟨field, _, ⟨rfl, rfl⟩, same⟩
    obtain ⟨rfl, rfl⟩ := Prod.mk.inj (Except.ok.inj same)
    exact ⟨Bytes.value_lt field, by rw [Bytes.littleEndian_value]; rfl⟩
  · rintro ⟨fits, rfl⟩
    refine ⟨Bytes.littleEndian width number, rest, ⟨Bytes.length_littleEndian _ _, rfl⟩, ?_⟩
    rw [Bytes.value_littleEndian, Nat.mod_eq_of_lt fits]
    rfl

theorem takeLength_reads :
    Reads (takeNumber 8) (Bytes.littleEndian 8) fun number => number < UInt64.size :=
  takeNumber_reads 8

theorem takeSigned_reads : Reads takeSigned Bytes.ofSigned fun _ => True := by
  intro input rest word
  simp only [takeSigned, bind_ok_iff, takeLength_reads _, Prod.exists]
  constructor
  · rintro ⟨number, _, ⟨fits, rfl⟩, same⟩
    obtain ⟨rfl, rfl⟩ := Prod.mk.inj (Except.ok.inj same)
    refine ⟨trivial, ?_⟩
    rw [Bytes.ofSigned, Bytes.ofWord, UInt64.toUInt64_toInt64, UInt64.toNat_ofNat_of_lt' fits]
  · rintro ⟨-, rfl⟩
    refine ⟨word.toUInt64.toNat, rest, ⟨word.toUInt64.toNat_lt, rfl⟩, ?_⟩
    rw [UInt64.ofNat_toNat, Int64.toInt64_toUInt64]
    rfl

theorem takeVector_reads (width : Nat) :
    Reads (takeVector width) Vector.toList fun _ => True := by
  intro input rest bytes
  simp only [takeVector, bind_ok_iff, takeBytes_reads width _, Prod.exists]
  constructor
  · rintro ⟨field, _, ⟨sized, rfl⟩, same⟩
    rw [dif_pos sized] at same
    obtain ⟨rfl, rfl⟩ := Prod.mk.inj (Except.ok.inj same)
    exact ⟨trivial, rfl⟩
  · rintro ⟨-, rfl⟩
    refine ⟨bytes.toList, rest, ⟨bytes.length_toList, rfl⟩, ?_⟩
    rw [dif_pos bytes.length_toList]
    obtain ⟨⟨_⟩, _⟩ := bytes
    rfl

theorem takeDescriptor_reads : Reads takeDescriptor putDescriptor fun _ => True := by
  intro input rest descriptor
  simp only [takeDescriptor, bind_ok_iff, takeVector_reads 32 _, takeSigned_reads _, Prod.exists]
  constructor
  · rintro ⟨bytes, _, ⟨-, rfl⟩, generation, _, ⟨-, rfl⟩, same⟩
    obtain ⟨rfl, rfl⟩ := Prod.mk.inj (Except.ok.inj same)
    exact ⟨trivial, (List.append_assoc _ _ _).symm⟩
  · rintro ⟨-, rfl⟩
    exact ⟨descriptor.hash.bytes, _, ⟨trivial, List.append_assoc _ _ _⟩, descriptor.generation, rest,
      ⟨trivial, rfl⟩, rfl⟩

theorem takeParent_reads : Reads takeParent putParent fun _ => True := by
  intro input rest parent
  cases input with
  | nil => cases parent <;> simp [takeParent, putParent]
  | cons tag input =>
    simp only [takeParent]
    split
    · rename_i zero
      subst zero
      cases parent <;> simp [putParent, eq_comm]
    · rename_i nonzero
      split
      · rename_i one
        subst one
        simp only [bind_ok_iff, takeDescriptor_reads _, Prod.exists]
        cases parent with
        | none => simp [putParent, pure, Except.pure]
        | some parent => simp [putParent, pure, Except.pure]
      · rename_i notOne
        cases parent with
        | none => simp [putParent, nonzero]
        | some parent => simp [putParent, notOne]

theorem takeTransaction_reads :
    Reads takeTransaction putTransaction fun transaction => transaction.length < UInt64.size := by
  intro input rest transaction
  simp only [takeTransaction, bind_ok_iff, takeLength_reads _, takeBytes_reads _ _, Prod.exists]
  constructor
  · rintro ⟨_, _, ⟨fits, rfl⟩, rfl, rfl⟩
    exact ⟨fits, (List.append_assoc _ _ _).symm⟩
  · rintro ⟨fits, rfl⟩
    exact ⟨transaction.length, _, ⟨fits, List.append_assoc _ _ _⟩, rfl, rfl⟩

theorem takeMany_reads {α : Type} {take : Reader α} {put : α → Bytes} {fits : α → Prop}
    (reads : Reads take put fits) (count : Nat) :
    Reads (takeMany take count) (fun items => items.flatMap put)
      fun items => items.length = count ∧ ∀ item ∈ items, fits item := by
  intro input rest items
  induction count generalizing input rest items with
  | zero => cases items <;> simp [takeMany, eq_comm]
  | succ count ih =>
    simp only [takeMany, bind_ok_iff, reads _, ih, Prod.exists]
    constructor
    · rintro ⟨item, _, ⟨fits, rfl⟩, others, _, ⟨⟨rfl, othersFit⟩, rfl⟩, same⟩
      obtain ⟨rfl, rfl⟩ := Prod.mk.inj (Except.ok.inj same)
      refine ⟨⟨rfl, List.forall_mem_cons.mpr ⟨fits, othersFit⟩⟩, ?_⟩
      rw [List.flatMap_cons, List.append_assoc]
    · rintro ⟨⟨sized, allFit⟩, rfl⟩
      cases items with
      | nil => contradiction
      | cons item others =>
        obtain ⟨fits, othersFit⟩ := List.forall_mem_cons.mp allFit
        refine ⟨item, _, ⟨fits, ?_⟩, others, rest, ⟨⟨Nat.succ.inj sized, othersFit⟩, rfl⟩, rfl⟩
        rw [List.flatMap_cons, List.append_assoc]

theorem takeTransactions_reads : Reads takeTransactions putTransactions fun transactions =>
    transactions.length < UInt64.size ∧ ∀ transaction ∈ transactions, transaction.length < UInt64.size := by
  intro input rest transactions
  simp only [takeTransactions, bind_ok_iff, takeLength_reads _,
    takeMany_reads takeTransaction_reads _ _, Prod.exists]
  constructor
  · rintro ⟨_, _, ⟨fits, rfl⟩, ⟨rfl, allFit⟩, rfl⟩
    exact ⟨⟨fits, allFit⟩, (List.append_assoc _ _ _).symm⟩
  · rintro ⟨⟨fits, allFit⟩, rfl⟩
    exact ⟨transactions.length, _, ⟨fits, List.append_assoc _ _ _⟩, ⟨rfl, allFit⟩, rfl⟩

end Wire

def Content.HasWireLengths (content : Content) : Prop :=
  content.transactions.length < UInt64.size ∧
    ∀ transaction ∈ content.transactions, transaction.length < UInt64.size

open Wire in
theorem Content.takeContent_reads : Reads takeContent Content.encode HasWireLengths := by
  intro input rest content
  simp only [takeContent, bind_ok_iff, takeVector_reads 32 _, takeSigned_reads _,
    takeParent_reads _, takeTransactions_reads _, Prod.exists]
  constructor
  · rintro ⟨creator, _, ⟨-, rfl⟩, generation, _, ⟨-, rfl⟩, selfParent, _, ⟨-, rfl⟩, otherParent, _,
      ⟨-, rfl⟩, transactions, _, ⟨fits, rfl⟩, timestamp, _, ⟨-, rfl⟩, same⟩
    obtain ⟨rfl, rfl⟩ := Prod.mk.inj (Except.ok.inj same)
    exact ⟨fits, by simp [Content.encode, CreatorId.toBytes]⟩
  · rintro ⟨fits, rfl⟩
    refine ⟨content.creator.bytes, _, ⟨trivial, ?_⟩, content.generation, _, ⟨trivial, rfl⟩,
      content.selfParent, _, ⟨trivial, rfl⟩, content.otherParent, _, ⟨trivial, rfl⟩,
      content.transactions, _, ⟨fits, rfl⟩, content.timestamp, rest, ⟨trivial, rfl⟩, rfl⟩
    simp [Content.encode, CreatorId.toBytes]

def Wire.takeEvent : Reader Event := fun input => do
  let (hash, rest) ← takeVector 32 input
  let (content, rest) ← takeContent rest
  return ({ content with hash := ⟨hash⟩ }, rest)

open Wire in
theorem Event.takeEvent_reads : Reads takeEvent Event.encode fun event => event.HasWireLengths := by
  intro input rest event
  simp only [takeEvent, bind_ok_iff, takeVector_reads 32 _, Content.takeContent_reads _,
    Prod.exists]
  constructor
  · rintro ⟨bytes, _, ⟨-, rfl⟩, content, _, ⟨fits, rfl⟩, same⟩
    obtain ⟨rfl, rfl⟩ := Prod.mk.inj (Except.ok.inj same)
    exact ⟨fits, (List.append_assoc _ _ _).symm⟩
  · rintro ⟨fits, rfl⟩
    exact ⟨event.hash.bytes, _, ⟨trivial, List.append_assoc _ _ _⟩, event.toContent, rest,
      ⟨fits, rfl⟩, rfl⟩

namespace Event

/-- The hash is checked once the event is read. -/
theorem decode_eq (input : Bytes) : decode input = (do
    let (event, _) ← Wire.takeEvent input
    if event.IsAuthentic then return event else throw (.hashMismatch event.hash)) := by
  simp only [decode, Wire.takeEvent]
  cases Wire.takeVector 32 input with
  | error error => rfl
  | ok taken =>
    simp only [bind, Except.bind]
    cases Wire.takeContent taken.2 with
    | error error => rfl
    | ok content => rfl

/-- Decoding answers exactly the authentic events whose encoding the input starts with. -/
theorem decode_eq_ok {input : Bytes} {event : Event} : decode input = .ok event ↔
    event.IsAuthentic ∧ event.HasWireLengths ∧ ∃ rest, input = event.encode ++ rest := by
  simp only [decode_eq, bind_ok_iff, takeEvent_reads _, Prod.exists]
  constructor
  · rintro ⟨read, rest, ⟨fits, rfl⟩, same⟩
    split at same
    · rename_i authentic
      obtain rfl := Except.ok.inj same
      exact ⟨authentic, fits, rest, rfl⟩
    · have refused : Except.error _ = Except.ok event := same
      injection refused
  · rintro ⟨authentic, fits, rest, rfl⟩
    exact ⟨event, rest, ⟨fits, rfl⟩, if_pos authentic⟩

/-- An event that is read back from its encoding. -/
structure IsWirable (event : Event) : Prop where
  authentic : event.IsAuthentic
  lengths : event.HasWireLengths

theorem IsWirable.decode_encode {event : Event} (wirable : event.IsWirable) :
    decode event.encode = .ok event :=
  decode_eq_ok.mpr ⟨wirable.authentic, wirable.lengths, [], (List.append_nil _).symm⟩

end Event

theorem Content.isWirable_toEvent {content : Content} (fits : content.HasWireLengths) :
    content.toEvent.IsWirable := ⟨rfl, fits⟩

/-- What a draft is built into can be read back if the draft's transactions fit. -/
theorem Draft.isWirable_of_build {draft : Draft} {now : Timestamp} {event : Event}
    (built : draft.build now = .ok event) (count : draft.transactions.length < UInt64.size)
    (each : ∀ transaction ∈ draft.transactions, transaction.length < UInt64.size) :
    event.IsWirable := by
  unfold build at built
  split at built
  · contradiction
  · split at built
    · contradiction
    · obtain rfl := Except.ok.inj built
      exact ⟨rfl, count, each⟩

end Hashgraph
