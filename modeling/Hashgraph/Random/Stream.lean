import Hashgraph.Digest.Mixing

/-! The ChaCha stream with eight rounds: sixteen words a block, blocks numbered by a 64-bit
counter. A generator is a key and a position in the stream of that key. -/

namespace Hashgraph.Random

open Mixing

abbrev Key := Vector UInt32 8

def doubleRound (state : Block) : Block := mixRound rotateLeft state (Vector.replicate 16 0)

def constants : Vector UInt32 4 := #v[0x61707865, 0x3320646e, 0x79622d32, 0x6b206574]

def block (key : Key) (number : UInt64) : Block :=
  let initial : Block := constants ++ key ++ #v[number.toUInt32, (number >>> 32).toUInt32, 0, 0]
  Vector.zipWith (· + ·) (doubleRound (doubleRound (doubleRound (doubleRound initial)))) initial

structure Generator where
  key : Key
  /-- How many words of the stream are used up. -/
  position : Nat := 0

namespace Generator

/-- The states of the linear congruential generator that spreads a seed over a key. -/
def seedState (seed : UInt64) : Nat → UInt64
  | 0 => seed
  | n + 1 => seedState seed n * 6364136223846793005 + 11634580027462260723

/-- The word that such a state gives: its high bits folded and rotated by its top five bits. -/
def seedWord (state : UInt64) : UInt32 :=
  let folded := (((state >>> 18) ^^^ state) >>> 27).toUInt32
  let amount := (state >>> 59).toUInt32
  (folded >>> amount) ||| (folded <<< ((32 - amount) % 32))

def ofSeed (seed : UInt64) : Generator :=
  { key := Vector.ofFn fun i : Fin 8 => seedWord (seedState seed (i.val + 1)) }

def word (generator : Generator) (position : Nat) : UInt32 :=
  (block generator.key (UInt64.ofNat (position / 16))).get ⟨position % 16, Nat.mod_lt _ (by decide)⟩

/-- The next two words as a number, low word first. -/
def next (generator : Generator) : Nat × Generator :=
  let low := (generator.word generator.position).toNat
  let high := (generator.word (generator.position + 1)).toNat
  (low + UInt32.size * high, { generator with position := generator.position + 2 })

theorem next_lt (generator : Generator) : generator.next.1 < UInt64.size := by
  have low := (generator.word generator.position).toNat_lt
  have high := (generator.word (generator.position + 1)).toNat_lt
  simp only [next, UInt32.size, UInt64.size]
  omega

end Generator
end Hashgraph.Random
