/-! Sets of code points, given by their ranges. In an ascending list of ranges the search, which
stops at the first range that does not lie below a code point, finds the code points of the ranges
and no others. -/

namespace Hashgraph.Text

/-- Ranges of code points, each by its first and last member, in ascending order. -/
abbrev CodeRanges := List (Nat × Nat)

namespace CodeRanges

/-- No range begins below `bound` or at or below the end of the one before it. -/
def ascendingFrom (bound : Nat) : CodeRanges → Bool
  | [] => true
  | (first, last) :: rest => bound ≤ first && first ≤ last && ascendingFrom (last + 1) rest

def contains (code : Nat) : CodeRanges → Bool
  | [] => false
  | (first, last) :: rest => if code ≤ last then first ≤ code else contains code rest

def Includes (ranges : CodeRanges) (code : Nat) : Prop :=
  ∃ range ∈ ranges, range.1 ≤ code ∧ code ≤ range.2

theorem le_of_ascendingFrom {bound : Nat} {ranges : CodeRanges} {range : Nat × Nat}
    (ascending : ranges.ascendingFrom bound = true) (member : range ∈ ranges) :
    bound ≤ range.1 := by
  induction ranges generalizing bound with
  | nil => cases member
  | cons head rest ih =>
    simp only [ascendingFrom, Bool.and_eq_true, decide_eq_true_eq] at ascending
    obtain ⟨⟨low, order⟩, later⟩ := ascending
    cases member with
    | head => exact low
    | tail _ member =>
      have := ih later member
      omega

theorem contains_iff {bound code : Nat} {ranges : CodeRanges}
    (ascending : ranges.ascendingFrom bound = true) :
    ranges.contains code = true ↔ ranges.Includes code := by
  induction ranges generalizing bound with
  | nil => simp [contains, Includes]
  | cons head rest ih =>
    simp only [ascendingFrom, Bool.and_eq_true, decide_eq_true_eq] at ascending
    obtain ⟨_, later⟩ := ascending
    simp only [contains, Includes, List.mem_cons, exists_eq_or_imp]
    split
    · next below =>
      simp only [decide_eq_true_eq]
      constructor
      · intro above
        exact .inl ⟨above, below⟩
      · rintro (⟨above, _⟩ | ⟨range, member, above, _⟩)
        · exact above
        · have := le_of_ascendingFrom later member
          omega
    · next beyond =>
      rw [ih later]
      constructor
      · intro found
        exact .inr found
      · rintro (⟨_, below⟩ | found)
        · exact absurd below beyond
        · exact found

end CodeRanges
end Hashgraph.Text
