/-! A quick digest of 32 bytes, given as four words: words are mixed by multiplication, and the two
halves of a product are folded into one word. It spreads keys over a table and resists no attack. -/

namespace Hashgraph.Digest

def rotateWordLeft (word amount : UInt64) : UInt64 :=
  (word <<< amount) ||| (word >>> (64 - amount))

/-- The low half of a product, with the high half folded into it. -/
def foldProduct (first second : UInt64) : UInt64 :=
  let product := first.toNat * second.toNat
  UInt64.ofNat product ^^^ UInt64.ofNat (product / UInt64.size)

/-- The four keys are the first digits of the fraction of π. -/
def foldingPad : UInt64 := 0x243f6a8885a308d3

def foldingStart : UInt64 := 0x13198a2e03707344

def foldingKeys : UInt64 × UInt64 := (0xa4093822299f31d0, 0x082efa98ec4e6c89)

def foldingMultiplier : UInt64 := 6364136223846793005

def foldPair (state first second : UInt64) : UInt64 :=
  let mixed := foldProduct (first ^^^ foldingKeys.1) (second ^^^ foldingKeys.2)
  rotateWordLeft ((state + foldingPad) ^^^ mixed) 23

/-- The digest of four words. Their number of bytes goes in first, then the later pair of words and
the earlier one. -/
def foldWords (first second third fourth : UInt64) : UInt64 :=
  let state := (foldProduct (foldingStart ^^^ 32) foldingMultiplier + 32) * foldingMultiplier
  let state := foldPair (foldPair state third fourth) first second
  rotateWordLeft (foldProduct state foldingPad) (state % 64)

end Hashgraph.Digest
