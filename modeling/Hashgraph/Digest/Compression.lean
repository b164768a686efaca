import Hashgraph.Bytes.LittleEndian
import Hashgraph.Digest.Mixing

/-! The BLAKE3 compression function: a chaining value and a block of sixteen words are mixed for
seven rounds into the next chaining value. -/

namespace Hashgraph.Digest

open Mixing

abbrev ChainValue := Vector UInt32 8

def initialValue : ChainValue :=
  #v[0x6a09e667, 0xbb67ae85, 0x3c6ef372, 0xa54ff53a, 0x510e527f, 0x9b05688c, 0x1f83d9ab, 0x5be0cd19]

def mixRounds : Nat → Block → Block → Block
  | 0, state, _ => state
  | rounds + 1, state, block => mixRounds rounds (mixRound rotateRight state block) (reorder block)

/-- What a compression reads; the flags of the root are added only when its place is known. -/
structure Pending where
  chain : ChainValue
  block : Block
  counter : UInt64
  length : UInt32
  flags : UInt32

def Pending.compress (pending : Pending) (extraFlags : UInt32) : ChainValue :=
  let chain := pending.chain
  let state : Block := #v[chain[0], chain[1], chain[2], chain[3], chain[4], chain[5], chain[6],
    chain[7], initialValue[0], initialValue[1], initialValue[2], initialValue[3],
    pending.counter.toUInt32, (pending.counter >>> 32).toUInt32, pending.length,
    pending.flags ||| extraFlags]
  let mixed := mixRounds 7 state pending.block
  Vector.ofFn fun i : Fin 8 => mixed[i.val] ^^^ mixed[i.val + 8]

end Hashgraph.Digest
