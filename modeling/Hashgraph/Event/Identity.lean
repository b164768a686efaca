import Std.Data.ExtTreeMap
import Std.Data.ExtTreeSet
import Hashgraph.Bytes.Hexadecimal
import Hashgraph.Digest.Blake3

/-! Event hashes and creator identities: 32 bytes each, shown by their first hexadecimal digits.
Event hashes are ordered byte by byte; sets of hashes and maps over hashes are kept in that order
and are equal as soon as they have the same members. -/

namespace Hashgraph

structure EventHash where
  bytes : Vector UInt8 32
deriving DecidableEq

namespace EventHash

instance : Ord EventHash := ⟨fun a b => compare a.bytes b.bytes⟩

instance : Std.TransOrd EventHash where
  eq_swap :=
    @fun a b => (Std.OrientedCmp.eq_swap : compare a.bytes b.bytes = (compare b.bytes a.bytes).swap)
  isLE_trans := @fun a _ c first second =>
    (Std.TransCmp.isLE_trans first second : (compare a.bytes c.bytes).isLE)

instance : Std.LawfulEqOrd EventHash where
  compare_self {a} := (Std.ReflCmp.compare_self : compare a.bytes a.bytes = .eq)
  eq_of_compare {a b} equal := by
    obtain ⟨x⟩ := a
    obtain ⟨y⟩ := b
    have same : compare x y = .eq := equal
    exact congrArg EventHash.mk (Std.LawfulEqCmp.eq_of_compare same)

def zero : EventHash := ⟨Vector.replicate 32 0⟩

instance : Inhabited EventHash := ⟨zero⟩

def ofContent (content : Bytes) : EventHash := ⟨Digest.blake3 content⟩

def toBytes (hash : EventHash) : Bytes := hash.bytes.toList

def toHex (hash : EventHash) : String := hash.toBytes.toHex

/-- The first sixteen digits, which stand for the hash in messages. -/
def short (hash : EventHash) : String := String.ofList (hash.toBytes.hexDigits.take 16)

def describe (hash : EventHash) : String := "EventHash(" ++ hash.short ++ ")"

end EventHash

abbrev EventHashSet := Std.ExtTreeSet EventHash compare

abbrev EventHashMap (β : Type) := Std.ExtTreeMap EventHash β compare

/-- The identity of a member: the digest of its public key. -/
structure CreatorId where
  bytes : Vector UInt8 32
deriving DecidableEq

namespace CreatorId

def ofPublicKey (key : Bytes) : CreatorId := ⟨Digest.blake3 key⟩

/-- The identity of the member with the given number, whose key is that number's eight bytes. -/
def ofIndex (index : UInt64) : CreatorId := ofPublicKey (Bytes.ofWord index)

def toBytes (creator : CreatorId) : Bytes := creator.bytes.toList

def toHex (creator : CreatorId) : String := creator.toBytes.toHex

def short (creator : CreatorId) : String := String.ofList (creator.toBytes.hexDigits.take 12)

def describe (creator : CreatorId) : String := "CreatorId(" ++ creator.short ++ ")"

end CreatorId
end Hashgraph
