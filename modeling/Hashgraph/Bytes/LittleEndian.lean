/-! Byte strings and the little-endian form of numbers: a field of `width` bytes holds a number
modulo the capacity of the field, and every byte string is the form of the number that it holds. -/

namespace Hashgraph

abbrev Bytes := List UInt8

namespace Bytes

/-- The low `width` bytes of a number, least significant first. -/
def littleEndian : Nat → Nat → Bytes
  | 0, _ => []
  | width + 1, value => UInt8.ofNat value :: littleEndian width (value / 256)

/-- How many numbers a field of `width` bytes tells apart. -/
def capacity : Nat → Nat
  | 0 => 1
  | width + 1 => 256 * capacity width

/-- The number that a byte string holds, least significant byte first. -/
def value : Bytes → Nat
  | [] => 0
  | byte :: rest => byte.toNat + 256 * value rest

@[simp] theorem length_littleEndian (width number : Nat) :
    (littleEndian width number).length = width := by
  fun_induction littleEndian width number <;> simp [*]

theorem value_littleEndian (width number : Nat) :
    value (littleEndian width number) = number % capacity width := by
  fun_induction littleEndian width number with
  | case1 number => simp [value, capacity, Nat.mod_one]
  | case2 width number ih =>
    rw [value, ih, capacity, Nat.mod_mul, UInt8.toNat_ofNat']

theorem value_lt (bytes : Bytes) : value bytes < capacity bytes.length := by
  fun_induction value bytes with
  | case1 => decide
  | case2 byte rest ih =>
    have := byte.toNat_lt
    rw [List.length_cons, capacity]
    omega

theorem littleEndian_value (bytes : Bytes) : littleEndian bytes.length (value bytes) = bytes := by
  fun_induction value bytes with
  | case1 => rfl
  | case2 byte rest ih =>
    have small := byte.toNat_lt
    have quotient : (byte.toNat + 256 * value rest) / 256 = value rest := by omega
    have head : UInt8.ofNat (byte.toNat + 256 * value rest) = byte :=
      UInt8.toNat_inj.mp (by rw [UInt8.toNat_ofNat']; omega)
    rw [List.length_cons, littleEndian, quotient, head, ih]

def ofWord (word : UInt64) : Bytes := littleEndian 8 word.toNat

def ofSigned (word : Int64) : Bytes := ofWord word.toUInt64

end Bytes
end Hashgraph
