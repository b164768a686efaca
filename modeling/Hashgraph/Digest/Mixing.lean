/-! The mixing of sixteen words. A round mixes the four columns and then the four diagonals of the
square that the words make. The digest rotates to the right and reorders its block after each
round; the random stream rotates to the left and mixes no block in. -/

namespace Hashgraph.Mixing

abbrev Block := Vector UInt32 16

def rotateLeft (word amount : UInt32) : UInt32 :=
  (word <<< amount) ||| (word >>> (32 - amount))

def rotateRight (word amount : UInt32) : UInt32 :=
  (word >>> amount) ||| (word <<< (32 - amount))

/-- Mixes two block words into four state words. -/
def quarter (rotate : UInt32 → UInt32 → UInt32) (state : Block) (a b c d : Fin 16)
    (x y : UInt32) : Block :=
  let a₁ := state[a] + state[b] + x
  let d₁ := rotate (state[d] ^^^ a₁) 16
  let c₁ := state[c] + d₁
  let b₁ := rotate (state[b] ^^^ c₁) 12
  let a₂ := a₁ + b₁ + y
  let d₂ := rotate (d₁ ^^^ a₂) 8
  let c₂ := c₁ + d₂
  let b₂ := rotate (b₁ ^^^ c₂) 7
  (((state.set a a₂).set b b₂).set c c₂).set d d₂

def mixRound (rotate : UInt32 → UInt32 → UInt32) (state block : Block) : Block :=
  let state := quarter rotate state 0 4 8 12 block[0] block[1]
  let state := quarter rotate state 1 5 9 13 block[2] block[3]
  let state := quarter rotate state 2 6 10 14 block[4] block[5]
  let state := quarter rotate state 3 7 11 15 block[6] block[7]
  let state := quarter rotate state 0 5 10 15 block[8] block[9]
  let state := quarter rotate state 1 6 11 12 block[10] block[11]
  let state := quarter rotate state 2 7 8 13 block[12] block[13]
  quarter rotate state 3 4 9 14 block[14] block[15]

/-- Where each word of a round's block stood in the block of the round before. -/
def wordOrder : Vector (Fin 16) 16 := #v[2, 6, 3, 10, 7, 0, 4, 13, 1, 11, 12, 5, 9, 14, 15, 8]

def reorder (block : Block) : Block := wordOrder.map fun source => block[source]

end Hashgraph.Mixing
