import Hashgraph.Digest.Compression

/-! The BLAKE3 digest of a byte string. The input is cut into chunks of 1024 bytes; the chunks are
the leaves of a tree in which neighbours are joined level by level, an odd one out moving up as
it is. -/

namespace Hashgraph.Digest

open Mixing

namespace Flag

def chunkStart : UInt32 := 1

def chunkEnd : UInt32 := 2

def parent : UInt32 := 4

def root : UInt32 := 8

end Flag

/-- The sixteen words of at most 64 bytes, missing bytes being zero. -/
def blockWords (bytes : Bytes) : Block :=
  Vector.ofFn fun i : Fin 16 => UInt32.ofNat (Bytes.value ((bytes.drop (4 * i)).take 4))

/-- Compresses all blocks of a chunk but the last, which stays pending. -/
def absorb (counter : UInt64) (chain : ChainValue) (start : UInt32) (bytes : Bytes) : Pending :=
  if bytes.length ≤ 64 then
    ⟨chain, blockWords bytes, counter, UInt32.ofNat bytes.length, start ||| Flag.chunkEnd⟩
  else
    let block : Pending := ⟨chain, blockWords (bytes.take 64), counter, 64, start⟩
    absorb counter (block.compress 0) 0 (bytes.drop 64)
termination_by bytes.length
decreasing_by
  rw [List.length_drop]
  omega

def chunk (counter : Nat) (bytes : Bytes) : Pending :=
  absorb (UInt64.ofNat counter) initialValue Flag.chunkStart bytes

def chunks (counter : Nat) (bytes : Bytes) : List Pending :=
  if empty : bytes = [] then []
  else chunk counter (bytes.take 1024) :: chunks (counter + 1) (bytes.drop 1024)
termination_by bytes.length
decreasing_by
  have := List.length_pos_iff.mpr empty
  rw [List.length_drop]
  omega

def join (left right : Pending) : Pending :=
  ⟨initialValue, left.compress 0 ++ right.compress 0, 0, 64, Flag.parent⟩

def joinPairs : List Pending → List Pending
  | left :: right :: rest => join left right :: joinPairs rest
  | rest => rest

theorem length_joinPairs_le (nodes : List Pending) : (joinPairs nodes).length ≤ nodes.length := by
  fun_induction joinPairs nodes with
  | case1 left right rest ih => simp only [List.length_cons]; omega
  | case2 => exact Nat.le_refl _

/-- The root of the tree over a level that starts with `first`. -/
def rootOf (first : Pending) : List Pending → Pending
  | [] => first
  | second :: rest => rootOf (join first second) (joinPairs rest)
termination_by rest => rest.length
decreasing_by
  have := length_joinPairs_le rest
  simp only [List.length_cons]
  omega

def blake3 (bytes : Bytes) : Vector UInt8 32 :=
  let root := rootOf (chunk 0 (bytes.take 1024)) (chunks 1 (bytes.drop 1024))
  let words := root.compress Flag.root
  Vector.ofFn fun i : Fin 32 => (words[i.val / 4] >>> UInt32.ofNat (8 * (i.val % 4))).toUInt8

end Hashgraph.Digest
