import Hashgraph.Random.Stream

/-! Uniform choice up to a bound. A 64-bit draw is scaled to the choices; draws whose low half falls
beyond the largest multiple are refused, so that every choice is equally likely. -/

namespace Hashgraph.Random.Generator

/-- The greatest low half that is accepted for this many choices. -/
def zone (choices : Nat) : Nat := choices <<< (63 - choices.log2) - 1

def scale (last draw : Nat) (small : draw < UInt64.size) : Fin (last + 1) :=
  ⟨draw * (last + 1) / UInt64.size, by
    rw [Nat.div_lt_iff_lt_mul (by decide), Nat.mul_comm (last + 1)]
    exact Nat.mul_lt_mul_of_pos_right small (Nat.succ_pos last)⟩

def chooseWithin (last : Nat) : Nat → Generator → Fin (last + 1) × Generator
  | 0, generator => (⟨0, Nat.succ_pos last⟩, generator)
  | attempts + 1, generator =>
    if generator.next.1 * (last + 1) % UInt64.size ≤ zone (last + 1) then
      (scale last generator.next.1 generator.next_lt, generator.next.2)
    else chooseWithin last attempts generator.next.2

/-- The number of draws after which the stream repeats: eight in each of its blocks. -/
def period : Nat := 8 * UInt64.size

/-- Chooses a number up to `last`. A generator that refuses a whole period refuses for ever. -/
def choose (last : Nat) (generator : Generator) : Fin (last + 1) × Generator :=
  chooseWithin last period generator

end Hashgraph.Random.Generator
