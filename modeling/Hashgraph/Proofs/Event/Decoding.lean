import Hashgraph.Proofs.Event.RoundTrip

/-! What becomes of any byte string. It is read as an event if it starts with the byte form of an
authentic one. If not, the reason can be told from it: it stops within the form of an event, a parent
has neither of the two tags, or the contents do not have the hash that stands before them. -/

namespace Hashgraph

theorem bind_error_iff {ε α β : Type} {first : Except ε α} {second : α → Except ε β} {error : ε} :
    (first >>= second) = .error error ↔
      first = .error error ∨ ∃ value, first = .ok value ∧ second value = .error error := by
  cases first with
  | error error => simp [bind, Except.bind]
  | ok value => simp [bind, Except.bind]

namespace Wire

variable {α β : Type}

/-- A reader that looks no further than the value it reads, and for which an input that stops too
early can be continued. -/
structure Steady (take : Reader α) : Prop where
  extend : ∀ {input rest : Bytes} {value : α} (more : Bytes), take input = .ok (value, rest) →
    take (input ++ more) = .ok (value, rest ++ more)
  exhausts : ∀ {rest : Bytes} {value : α}, take [] = .ok (value, rest) → rest = []
  blank : ∀ {error : WireError}, take [] = .error error → error = .endOfInput
  completes : ∀ {input : Bytes}, take input = .error .endOfInput →
    ∃ more value, take (input ++ more) = .ok (value, [])
  unhashed : ∀ {input : Bytes} {hash : EventHash}, take input ≠ .error (.hashMismatch hash)

namespace Steady

theorem pure (value : α) : Steady fun input => (.ok (value, input) : Except WireError _) where
  extend more same := by
    obtain ⟨rfl, rfl⟩ := Prod.mk.inj (Except.ok.inj same)
    rfl
  exhausts same := (Prod.mk.inj (Except.ok.inj same)).2.symm
  blank failed := by contradiction
  completes failed := by contradiction
  unhashed failed := by contradiction

theorem bind {first : Reader α} {second : α → Reader β} (one : Steady first)
    (two : ∀ value, Steady (second value)) :
    Steady fun input => do
      let (value, rest) ← first input
      second value rest where
  extend more same := by
    obtain ⟨⟨value, rest⟩, taken, others⟩ := bind_ok_iff.mp same
    exact bind_ok_iff.mpr ⟨_, one.extend more taken, (two value).extend more others⟩
  exhausts same := by
    obtain ⟨⟨value, rest⟩, taken, others⟩ := bind_ok_iff.mp same
    obtain rfl := one.exhausts taken
    exact (two value).exhausts others
  blank failed := by
    rcases bind_error_iff.mp failed with early | ⟨⟨value, rest⟩, taken, late⟩
    · exact one.blank early
    · obtain rfl := one.exhausts taken
      exact (two value).blank late
  completes := by
    intro input failed
    rcases bind_error_iff.mp failed with early | ⟨⟨value, rest⟩, taken, late⟩
    · -- the second value is read from what is added for it
      obtain ⟨more, value, taken⟩ := one.completes early
      cases others : second value [] with
      | error error =>
        obtain rfl := (two value).blank others
        obtain ⟨further, result, read⟩ := (two value).completes others
        refine ⟨more ++ further, result, bind_ok_iff.mpr ⟨(value, further), ?_, read⟩⟩
        rw [← List.append_assoc]
        exact one.extend further taken
      | ok result =>
        obtain ⟨result, rest⟩ := result
        obtain rfl := (two value).exhausts others
        exact ⟨more, result, bind_ok_iff.mpr ⟨(value, []), taken, others⟩⟩
    · obtain ⟨more, result, read⟩ := (two value).completes late
      exact ⟨more, result, bind_ok_iff.mpr ⟨_, one.extend more taken, read⟩⟩
  unhashed failed := by
    rcases bind_error_iff.mp failed with early | ⟨⟨value, rest⟩, -, late⟩
    · exact one.unhashed early
    · exact (two value).unhashed late

end Steady

structure Plain (take : Reader α) : Prop extends Steady take where
  untagged : ∀ {input : Bytes} {error : WireError}, take input = .error error → error = .endOfInput

namespace Plain

theorem ne_badTag {take : Reader α} (plain : Plain take) {input : Bytes} {tag : UInt8} :
    take input ≠ .error (.badTag tag) := by
  intro failed
  cases plain.untagged failed

theorem pure (value : α) : Plain fun input => (.ok (value, input) : Except WireError _) where
  toSteady := .pure value
  untagged failed := by contradiction

theorem bind {first : Reader α} {second : α → Reader β} (one : Plain first)
    (two : ∀ value, Plain (second value)) :
    Plain fun input => do
      let (value, rest) ← first input
      second value rest where
  toSteady := one.toSteady.bind fun value => (two value).toSteady
  untagged failed := by
    rcases bind_error_iff.mp failed with early | ⟨⟨value, rest⟩, -, late⟩
    · exact one.untagged early
    · exact (two value).untagged late

/-- A reader that takes off what its writer puts, and that more input mends where it fails. -/
theorem of_reads {take : Reader α} {put : α → Bytes} {fits : α → Prop}
    (reads : Reads take put fits)
    (untagged : ∀ {input error}, take input = .error error → error = .endOfInput)
    (completes : ∀ {input}, take input = .error .endOfInput →
      ∃ more value, take (input ++ more) = .ok (value, [])) : Plain take where
  extend more same := by
    obtain ⟨fits, rfl⟩ := (reads _ _ _).mp same
    exact (reads _ _ _).mpr ⟨fits, List.append_assoc _ _ _⟩
  exhausts same := (List.append_eq_nil_iff.mp ((reads _ _ _).mp same).2.symm).2
  blank := untagged
  completes := completes
  unhashed failed := by cases untagged failed
  untagged := untagged

end Plain

theorem plain_takeBytes (count : Nat) : Plain (takeBytes count) := by
  refine .of_reads (takeBytes_reads count) ?_ ?_
  · intro input error failed
    unfold takeBytes at failed
    split at failed
    · contradiction
    · exact (Except.error.inj failed).symm
  · intro input failed
    have short : input.length ≤ count := by
      refine Nat.not_lt.mp fun long => ?_
      have taken := (takeBytes_reads count input (input.drop count) (input.take count)).mpr
        ⟨List.length_take_of_le (Nat.le_of_lt long), (List.take_append_drop count input).symm⟩
      rw [taken] at failed
      contradiction
    have whole : (input ++ List.replicate (count - input.length) 0).length = count := by
      rw [List.length_append, List.length_replicate, Nat.add_sub_cancel' short]
    exact ⟨_, _, (takeBytes_reads count _ [] _).mpr ⟨whole, (List.append_nil _).symm⟩⟩

theorem plain_takeNumber (width : Nat) : Plain (takeNumber width) :=
  (plain_takeBytes width).bind fun field => .pure (Bytes.value field)

theorem plain_takeSigned : Plain takeSigned :=
  (plain_takeNumber 8).bind fun number => .pure (UInt64.ofNat number).toInt64

theorem takeVector_eq_error {width : Nat} {input : Bytes} {error : WireError} :
    takeVector width input = .error error ↔ takeBytes width input = .error error := by
  simp only [takeVector, bind_error_iff, Prod.exists]
  refine or_iff_left ?_
  rintro ⟨field, rest, taken, failed⟩
  rw [dif_pos ((takeBytes_reads width _ _ _).mp taken).1] at failed
  contradiction

theorem plain_takeVector (width : Nat) : Plain (takeVector width) := by
  refine .of_reads (takeVector_reads width) ?_ ?_
  · exact fun failed => (plain_takeBytes width).untagged (takeVector_eq_error.mp failed)
  · intro input failed
    obtain ⟨more, field, taken⟩ :=
      (plain_takeBytes width).completes (takeVector_eq_error.mp failed)
    obtain ⟨sized, same⟩ := (takeBytes_reads width _ _ _).mp taken
    exact ⟨more, ⟨field.toArray, sized⟩, (takeVector_reads width _ _ _).mpr ⟨trivial, same⟩⟩

theorem plain_takeDescriptor : Plain takeDescriptor :=
  (plain_takeVector 32).bind fun hash => plain_takeSigned.bind fun generation =>
    .pure (Descriptor.mk (EventHash.mk hash) generation)

theorem plain_takeTransaction : Plain takeTransaction :=
  (plain_takeNumber 8).bind fun length => plain_takeBytes length

theorem Plain.takeMany {take : Reader α} (plain : Plain take) (count : Nat) :
    Plain (takeMany take count) := by
  induction count with
  | zero => exact .pure []
  | succ count ih => exact plain.bind fun item => ih.bind fun items => .pure (item :: items)

theorem plain_takeTransactions : Plain takeTransactions :=
  (plain_takeNumber 8).bind fun count => plain_takeTransaction.takeMany count

theorem plain_takeSome : Plain fun input => do
    let (parent, rest) ← takeDescriptor input
    return (some parent, rest) :=
  plain_takeDescriptor.bind fun parent => .pure (some parent)

theorem takeParent_eq_badTag {input : Bytes} {tag : UInt8} :
    takeParent input = .error (.badTag tag) ↔
      tag ≠ 0 ∧ tag ≠ 1 ∧ ∃ later, input = tag :: later := by
  cases input with
  | nil => simp [takeParent]
  | cons first later =>
    simp only [takeParent, List.cons.injEq, exists_and_left, exists_eq', and_true]
    split
    · rename_i zero
      subst zero
      simp only [reduceCtorEq, false_iff]
      rintro ⟨notZero, -, zero⟩
      exact notZero zero.symm
    · split
      · rename_i one
        subst one
        constructor
        · exact fun failed => (plain_takeSome.ne_badTag failed).elim
        · rintro ⟨-, notOne, one⟩
          exact (notOne one.symm).elim
      · rename_i notZero notOne
        rw [Except.error.injEq, WireError.badTag.injEq]
        constructor
        · rintro rfl
          exact ⟨notZero, notOne, rfl⟩
        · rintro ⟨-, -, same⟩
          exact same

theorem steady_takeParent : Steady takeParent where
  extend more same := by
    obtain ⟨-, rfl⟩ := (takeParent_reads _ _ _).mp same
    exact (takeParent_reads _ _ _).mpr ⟨trivial, List.append_assoc _ _ _⟩
  exhausts same := by contradiction
  blank failed := (Except.error.inj failed).symm
  completes := by
    intro input failed
    cases input with
    | nil => exact ⟨[0], none, rfl⟩
    | cons tag later =>
      simp only [takeParent] at failed
      split at failed
      · contradiction
      · split at failed
        · rename_i one
          subst one
          obtain ⟨more, parent, taken⟩ := plain_takeSome.completes failed
          exact ⟨more, parent, taken⟩
        · cases failed
  unhashed := by
    intro input hash failed
    cases input with
    | nil => cases Except.error.inj failed
    | cons tag later =>
      simp only [takeParent] at failed
      split at failed
      · contradiction
      · split at failed
        · exact plain_takeSome.unhashed failed
        · cases failed

theorem steady_takeContent : Steady takeContent :=
  (plain_takeVector 32).toSteady.bind fun creator => plain_takeSigned.toSteady.bind fun generation =>
    steady_takeParent.bind fun selfParent => steady_takeParent.bind fun otherParent =>
    plain_takeTransactions.toSteady.bind fun transactions => plain_takeSigned.toSteady.bind
      fun timestamp => .pure
        (Content.mk (CreatorId.mk creator) generation selfParent otherParent transactions timestamp)

theorem steady_takeEvent : Steady takeEvent :=
  (plain_takeVector 32).toSteady.bind fun hash => steady_takeContent.bind fun content =>
    .pure (Event.mk content (EventHash.mk hash))

def HasBadTag (input : Bytes) (tag : UInt8) : Prop :=
  tag ≠ 0 ∧ tag ≠ 1 ∧ ∃ (hash : EventHash) (creator : CreatorId) (generation : Generation)
    (rest later : Bytes), input =
      hash.toBytes ++ creator.toBytes ++ Bytes.ofSigned generation ++ rest ∧
    (rest = tag :: later ∨ ∃ selfParent, rest = putParent selfParent ++ tag :: later)

theorem takeEvent_eq_badTag {input : Bytes} {tag : UInt8} :
    takeEvent input = .error (.badTag tag) ↔ HasBadTag input tag := by
  simp only [takeEvent, takeContent, bind_error_iff, Prod.exists, (plain_takeVector 32).ne_badTag,
    plain_takeSigned.ne_badTag, plain_takeTransactions.ne_badTag, takeVector_reads 32 _,
    takeSigned_reads _, takeParent_reads _, takeParent_eq_badTag, false_or, pure, Except.pure,
    reduceCtorEq, and_false, exists_false, or_false, true_and]
  constructor
  · rintro ⟨hash, _, rfl, creator, _, rfl, generation, _, rfl, first | ⟨parent, _, rfl, second⟩⟩
    · obtain ⟨notZero, notOne, later, rfl⟩ := first
      refine ⟨notZero, notOne, ⟨hash⟩, ⟨creator⟩, generation, _, later, ?_, .inl rfl⟩
      simp only [EventHash.toBytes, CreatorId.toBytes, List.append_assoc]
    · obtain ⟨notZero, notOne, later, rfl⟩ := second
      refine ⟨notZero, notOne, ⟨hash⟩, ⟨creator⟩, generation, _, later, ?_, .inr ⟨parent, rfl⟩⟩
      simp only [EventHash.toBytes, CreatorId.toBytes, List.append_assoc]
  · rintro ⟨notZero, notOne, hash, creator, generation, rest, later, rfl, place⟩
    refine ⟨hash.bytes, _, by simp only [EventHash.toBytes, CreatorId.toBytes, List.append_assoc],
      creator.bytes, _, rfl, generation, rest, rfl, ?_⟩
    rcases place with rfl | ⟨parent, rfl⟩
    · exact .inl ⟨notZero, notOne, later, rfl⟩
    · exact .inr ⟨parent, _, rfl, notZero, notOne, later, rfl⟩

theorem HasBadTag.extend {input : Bytes} {tag : UInt8} (bad : HasBadTag input tag) (more : Bytes) :
    HasBadTag (input ++ more) tag := by
  obtain ⟨notZero, notOne, hash, creator, generation, rest, later, rfl, place⟩ := bad
  refine ⟨notZero, notOne, hash, creator, generation, rest ++ more, later ++ more,
    List.append_assoc _ _ _, ?_⟩
  rcases place with rfl | ⟨parent, rfl⟩
  · exact .inl rfl
  · exact .inr ⟨parent, List.append_assoc _ _ _⟩

end Wire

/-- What is wrong with the input if it is refused for this reason. -/
def WireError.Explains (input : Bytes) : WireError → Prop
  | .endOfInput => ∃ event : Event, event.HasWireLengths ∧ ∃ more ≠ [], event.encode = input ++ more
  | .badTag tag => Wire.HasBadTag input tag
  | .hashMismatch hash => ∃ event : Event, event.HasWireLengths ∧ ¬ event.IsAuthentic ∧
      event.hash = hash ∧ ∃ rest, input = event.encode ++ rest

namespace Event

open Wire

theorem takeEvent_eq_endOfInput {input : Bytes} : takeEvent input = .error .endOfInput ↔
    ∃ event : Event, event.HasWireLengths ∧ ∃ more ≠ [], event.encode = input ++ more := by
  constructor
  · intro failed
    obtain ⟨more, event, read⟩ := steady_takeEvent.completes failed
    obtain ⟨fits, same⟩ := (takeEvent_reads _ _ _).mp read
    refine ⟨event, fits, more, ?_, (same.trans (List.append_nil _)).symm⟩
    rintro rfl
    rw [List.append_nil, failed] at read
    contradiction
  · rintro ⟨event, fits, more, nonempty, same⟩
    have whole : takeEvent (input ++ more) = .ok (event, []) :=
      (takeEvent_reads _ _ _).mpr ⟨fits, by rw [List.append_nil, same]⟩
    cases read : takeEvent input with
    | ok result =>
      have longer := steady_takeEvent.extend more read
      rw [whole] at longer
      have rest := congrArg Prod.snd (Except.ok.inj longer)
      exact (nonempty (List.append_eq_nil_iff.mp rest.symm).2).elim
    | error error =>
      cases error with
      | endOfInput => rfl
      | badTag tag =>
        have longer := takeEvent_eq_badTag.mpr ((takeEvent_eq_badTag.mp read).extend more)
        rw [whole] at longer
        contradiction
      | hashMismatch hash => exact (steady_takeEvent.unhashed read).elim

/-- Decoding refuses an input exactly for what is wrong with it. -/
theorem decode_eq_error {input : Bytes} {error : WireError} :
    decode input = .error error ↔ error.Explains input := by
  have checked (event : Event) : (if event.IsAuthentic then return event
      else throw (.hashMismatch event.hash) : Except WireError Event) = .error error ↔
        ¬ event.IsAuthentic ∧ .hashMismatch event.hash = error := by
    split
    · simp_all [pure, Except.pure]
    · simp_all [throw, throwThe, MonadExceptOf.throw]
  simp only [decode_eq, bind_error_iff, Prod.exists, checked, takeEvent_reads _]
  cases error with
  | endOfInput => simp only [reduceCtorEq, and_false, exists_false, or_false, takeEvent_eq_endOfInput,
      WireError.Explains]
  | badTag tag => simp only [reduceCtorEq, and_false, exists_false, or_false, takeEvent_eq_badTag,
      WireError.Explains]
  | hashMismatch hash =>
    have unhashed : takeEvent input ≠ .error (.hashMismatch hash) := steady_takeEvent.unhashed
    simp only [unhashed, false_or, WireError.Explains, WireError.hashMismatch.injEq]
    constructor
    · rintro ⟨event, rest, ⟨fits, same⟩, forged, named⟩
      exact ⟨event, fits, forged, named, rest, same⟩
    · rintro ⟨event, fits, forged, named, rest, same⟩
      exact ⟨event, rest, ⟨fits, same⟩, forged, named⟩

/-- An input is decoded to the authentic event whose byte form it starts with, if there is one; any
other is refused for what is wrong with it. So what is built or opens a chain is read back, whatever
follows. -/
theorem decode_exact :
    (∀ (input : Bytes) (event : Event), decode input = .ok event ↔
      event.hash = EventHash.ofContent event.toContent.preimage ∧ event.HasWireLengths ∧
        ∃ rest, input = event.encode ++ rest) ∧
    (∀ input : Bytes, (∀ event : Event, event.IsWirable → ∀ rest, input ≠ event.encode ++ rest) →
      ∃ error, decode input = .error error) ∧
    (∀ (input : Bytes) (error : WireError), decode input = .error error ↔ error.Explains input) ∧
    (∀ (draft : Draft) (now : Timestamp) (event : Event) (rest : Bytes),
      draft.build now = .ok event → draft.transactions.length < UInt64.size →
      (∀ transaction ∈ draft.transactions, transaction.length < UInt64.size) →
      decode (event.encode ++ rest) = .ok event) ∧
    ∀ (creator : CreatorId) (transactions : List Bytes) (now : Timestamp) (rest : Bytes),
      transactions.length < UInt64.size →
      (∀ transaction ∈ transactions, transaction.length < UInt64.size) →
      decode ((genesis creator transactions now).encode ++ rest) =
        .ok (genesis creator transactions now) := by
  have readBack {event : Event} (wirable : event.IsWirable) (rest : Bytes) :
      decode (event.encode ++ rest) = .ok event :=
    decode_eq_ok.mpr ⟨wirable.authentic, wirable.lengths, rest, rfl⟩
  refine ⟨fun _ _ => decode_eq_ok, ?_, fun _ _ => decode_eq_error, ?_, ?_⟩
  · intro input foreign
    cases decoded : decode input with
    | ok event =>
      obtain ⟨authentic, fits, rest, same⟩ := decode_eq_ok.mp decoded
      exact (foreign event ⟨authentic, fits⟩ rest same).elim
    | error error => exact ⟨error, rfl⟩
  · intro draft now event rest built count each
    exact readBack (Draft.isWirable_of_build built count each) rest
  · intro creator transactions now rest count each
    exact readBack (Content.isWirable_toEvent ⟨count, each⟩) rest

/-- An event with a parent and an empty transaction, and a first event, with a byte after them. -/
theorem decode_exact_followed :
    let creator : CreatorId := ⟨.replicate 32 1⟩
    let draft : Draft :=
      { creator, selfParent := some ⟨.zero, 0⟩, transactions := [[1, 2], []] }
    (∃ event, draft.build 5 = .ok event ∧ decode (event.encode ++ [7]) = .ok event) ∧
      decode ((genesis creator [[3]] 5).encode ++ [7]) = .ok (genesis creator [[3]] 5) ∧
      ∃ error, decode [] = .error error := by
  intro creator draft
  obtain ⟨-, refused, -, built, opened⟩ := decode_exact
  refine ⟨⟨_, rfl, built draft 5 _ [7] rfl (by decide) (by decide)⟩,
    opened creator [[3]] 5 [7] (by decide) (by decide), refused [] ?_⟩
  intro event wirable rest same
  have blank : event.encode = [] := (List.append_eq_nil_iff.mp same.symm).1
  have lengths := congrArg List.length (List.append_eq_nil_iff.mp blank).1
  rw [EventHash.toBytes, Vector.length_toList] at lengths
  contradiction

end Event
end Hashgraph
