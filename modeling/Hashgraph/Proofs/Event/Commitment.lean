import Hashgraph.Proofs.Event.RoundTrip

/-! What the hash of an event commits to. The pieces that the digest is fed make up the byte form of
the contents, and no two contents have one byte form: each reader knows where its part ends. Two
different events can share a hash only where two different byte strings share a digest. -/

namespace Hashgraph

theorem Bytes.ofWord_ofNat (number : Nat) :
    ofWord (UInt64.ofNat number) = littleEndian 8 number := by
  calc ofWord (UInt64.ofNat number)
    _ = littleEndian 8 (number % capacity 8) := by rw [ofWord, UInt64.toNat_ofNat']; rfl
    _ = littleEndian 8 (value (littleEndian 8 number)) := by rw [value_littleEndian]
    _ = littleEndian 8 number := by
      have whole := littleEndian_value (littleEndian 8 number)
      rwa [length_littleEndian] at whole

/-- Two byte strings that the digest cannot tell apart. -/
def Digest.Collides (first second : Bytes) : Prop :=
  first ≠ second ∧ Digest.blake3 first = Digest.blake3 second

namespace Content

theorem flatten_parentPieces (parent : Option Descriptor) :
    (parentPieces parent).flatten = Wire.putParent parent := by
  cases parent with
  | none => rfl
  | some parent => simp [parentPieces, Wire.putParent, Wire.putDescriptor]

theorem flatten_transactionPieces (transactions : List Bytes) :
    (transactions.flatMap transactionPieces).flatten = transactions.flatMap Wire.putTransaction := by
  induction transactions with
  | nil => rfl
  | cons transaction rest ih =>
    rw [List.flatMap_cons, List.flatten_append, ih, List.flatMap_cons]
    simp [transactionPieces, Wire.putTransaction, Wire.putLength, Bytes.ofWord_ofNat]

theorem preimage_eq_encode (content : Content) : content.preimage = content.encode := by
  simp only [preimage, pieces, List.flatMap_cons, List.flatMap_nil, List.flatten_append,
    List.flatten_cons, List.flatten_nil, flatten_parentPieces, flatten_transactionPieces,
    Bytes.ofWord_ofNat, encode, Wire.putTransactions, Wire.putLength, List.append_nil,
    List.append_assoc]

/-- The byte form of contents does not begin that of others. -/
theorem encode_append_inj {first second : Content} {rest rest' : Bytes}
    (fits : first.HasWireLengths) (fits' : second.HasWireLengths)
    (same : first.encode ++ rest = second.encode ++ rest') : first = second ∧ rest = rest' := by
  have read := (takeContent_reads (first.encode ++ rest) rest first).mpr ⟨fits, rfl⟩
  have read' := (takeContent_reads (first.encode ++ rest) rest' second).mpr ⟨fits', same⟩
  exact Prod.mk.inj (Except.ok.inj (read.symm.trans read'))

theorem encode_inj {first second : Content} (fits : first.HasWireLengths)
    (fits' : second.HasWireLengths) : first.encode = second.encode ↔ first = second := by
  refine ⟨fun same => ?_, congrArg encode⟩
  have whole : first.encode ++ [] = second.encode ++ [] := by rw [same]
  exact (encode_append_inj fits fits' whole).1

end Content

namespace Event

theorem drop_encode (event : Event) : event.encode.drop 32 = event.toContent.encode :=
  List.drop_left' event.hash.bytes.length_toList

/-- The hash of an event is the digest of the event's byte form without the hash, no two contents
have the same such form, and so different events have different hashes but for a collision of the
digest. -/
theorem digest_commits :
    (∀ event : Event, event.encode.drop 32 = event.toContent.preimage ∧
      event.toContent.digest = ⟨Digest.blake3 (event.encode.drop 32)⟩) ∧
    (∀ first second : Content, first.HasWireLengths → second.HasWireLengths →
      (first.preimage = second.preimage ↔ first = second)) ∧
    ∀ first second : Event, first.IsWirable → second.IsWirable → first ≠ second →
      first.hash ≠ second.hash ∨
        Digest.Collides first.toContent.preimage second.toContent.preimage := by
  have fed (event : Event) : event.encode.drop 32 = event.toContent.preimage := by
    rw [drop_encode, Content.preimage_eq_encode]
  have injective (first second : Content) (fits : first.HasWireLengths)
      (fits' : second.HasWireLengths) : first.preimage = second.preimage ↔ first = second := by
    rw [Content.preimage_eq_encode, Content.preimage_eq_encode]
    exact Content.encode_inj fits fits'
  refine ⟨fun event => ⟨fed event, ?_⟩, injective, ?_⟩
  · rw [fed]
    rfl
  · intro first second wirable wirable' differ
    by_cases same : first.hash = second.hash
    · refine .inr ⟨fun preimages => differ ?_, ?_⟩
      · have contents := (injective _ _ wirable.lengths wirable'.lengths).mp preimages
        obtain ⟨content, hash⟩ := first
        obtain ⟨content', hash'⟩ := second
        rw [Event.mk.injEq]
        exact ⟨contents, same⟩
      · have digests := wirable.authentic.symm.trans (same.trans wirable'.authentic)
        exact congrArg EventHash.bytes digests
    · exact .inl same

/-- A byte goes over to the next transaction and the self-parent becomes the other-parent. -/
theorem digest_commits_shifted :
    let parent : Descriptor := ⟨.zero, 0⟩
    let content : Content := ⟨⟨.replicate 32 1⟩, 1, some parent, none, [[1, 2], [3]], 5⟩
    let shifted : Content := ⟨⟨.replicate 32 1⟩, 1, none, some parent, [[1], [2, 3]], 5⟩
    content.preimage ≠ shifted.preimage ∧
      (content.toEvent.hash ≠ shifted.toEvent.hash ∨
        Digest.Collides content.preimage shifted.preimage) := by
  intro parent content shifted
  have fits : content.HasWireLengths := ⟨by decide, by decide⟩
  have fits' : shifted.HasWireLengths := ⟨by decide, by decide⟩
  have differ : content ≠ shifted := by decide
  refine ⟨fun same => differ ((digest_commits.2.1 _ _ fits fits').mp same), ?_⟩
  apply digest_commits.2.2 _ _ (Content.isWirable_toEvent fits) (Content.isWirable_toEvent fits')
  exact fun same => differ (congrArg Event.toContent same)

end Event
end Hashgraph
