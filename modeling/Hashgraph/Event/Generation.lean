/-! Generations: the causal depth of events. All arithmetic on them saturates at the ends of the
signed 64-bit range. -/

namespace Hashgraph

/-- The causal depth of an event. -/
abbrev Generation := Int64

namespace Generation

def first : Generation := 0

/-- The watermark below every event that can expire. -/
def nothingExpired : Generation := Int64.minValue

def next (generation : Generation) : Generation := Int64.ofIntClamp (generation.toInt + 1)

def minus (generation amount : Generation) : Generation :=
  Int64.ofIntClamp (generation.toInt - amount.toInt)

theorem toInt_minValue : Int64.minValue.toInt = -9223372036854775808 := rfl

theorem toInt_maxValue : Int64.maxValue.toInt = 9223372036854775807 := rfl

theorem toInt_ofIntClamp (n : Int) :
    (Int64.ofIntClamp n).toInt = max Int64.minValue.toInt (min n Int64.maxValue.toInt) := by
  have lower := toInt_minValue
  have upper := toInt_maxValue
  unfold Int64.ofIntClamp
  split
  · split
    · rw [Int64.toInt_ofIntLE]
      omega
    · omega
  · omega

/-- Below the top of the range the successor is strict. -/
theorem lt_next {generation : Generation} (below : generation < Int64.maxValue) :
    generation < next generation := by
  have lower := Int64.minValue_le_toInt generation
  rw [Int64.lt_iff_toInt_lt] at below ⊢
  rw [next, toInt_ofIntClamp]
  omega

instance : Std.LawfulOrderMax Generation where
  max_eq_or first second := by
    change (if first ≤ second then second else first) = _ ∨ _ = _
    split
    · exact .inr (if_pos ‹_›)
    · exact .inl rfl
  max_le_iff first second bound := by
    change (if first ≤ second then second else first) ≤ bound ↔ _
    split
    · rename_i below
      exact ⟨fun le => ⟨Int64.le_trans below le, le⟩, And.right⟩
    · rename_i above
      have below := Int64.le_of_lt (Int64.not_le.mp above)
      exact ⟨fun le => ⟨le, Int64.le_trans below le⟩, And.left⟩

end Generation
end Hashgraph
