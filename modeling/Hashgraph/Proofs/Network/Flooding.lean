import Mathlib.Data.Set.Lattice
import Hashgraph.Network.Settle

/-! Flooding. When all pairs of places, in order, put together what they hold, everything reaches
every place. The pairs of the first place gather everything there and, with the last of them, at the
last place; from the last place it goes to every place in between. -/

namespace Hashgraph.Network

variable {α : Type} {holdings : Nat → Set α} {meetings : List (Nat × Nat)} {place other : Nat}

/-- What the places hold once two of them have put together what they held. -/
def pool (holdings : Nat → Set α) (pair : Nat × Nat) (place : Nat) : Set α :=
  if place = pair.1 ∨ place = pair.2 then holdings pair.1 ∪ holdings pair.2 else holdings place

theorem subset_pool (holdings : Nat → Set α) (pair : Nat × Nat) (place : Nat) :
    holdings place ⊆ pool holdings pair place := by
  unfold pool
  split
  · rename_i met
    rcases met with rfl | rfl
    · exact Set.subset_union_left
    · exact Set.subset_union_right
  · exact Set.Subset.rfl

theorem subset_foldl_pool (meetings : List (Nat × Nat)) (holdings : Nat → Set α) (place : Nat) :
    holdings place ⊆ meetings.foldl pool holdings place := by
  induction meetings generalizing holdings with
  | nil => exact Set.Subset.rfl
  | cons pair rest ih => exact (subset_pool holdings pair place).trans (ih _)

theorem subset_foldl_pool_of_mem (met : (place, other) ∈ meetings) :
    holdings other ⊆ meetings.foldl pool holdings place := by
  induction meetings generalizing holdings with
  | nil => exact (List.not_mem_nil met).elim
  | cons pair rest ih =>
    rcases List.mem_cons.mp met with rfl | later
    · have pooled : pool holdings (place, other) place = holdings place ∪ holdings other :=
        if_pos (.inl rfl)
      calc holdings other
        _ ⊆ pool holdings (place, other) place := pooled ▸ Set.subset_union_right
        _ ⊆ rest.foldl pool (pool holdings (place, other)) place := subset_foldl_pool ..
    · exact (subset_pool holdings pair other).trans (ih later)

theorem foldl_pool_subset {count : Nat}
    (within : ∀ pair ∈ meetings, pair.1 < count ∧ pair.2 < count) (here : place < count) :
    meetings.foldl pool holdings place ⊆ ⋃ other < count, holdings other := by
  induction meetings generalizing holdings with
  | nil => exact Set.subset_iUnion₂_of_subset place here Set.Subset.rfl
  | cons pair rest ih =>
    obtain ⟨⟨first, second⟩, others⟩ := List.forall_mem_cons.mp within
    refine (ih others).trans (Set.iUnion₂_subset fun other there => ?_)
    unfold pool
    split
    · exact Set.union_subset (Set.subset_iUnion₂_of_subset _ first Set.Subset.rfl)
        (Set.subset_iUnion₂_of_subset _ second Set.Subset.rfl)
    · exact Set.subset_iUnion₂_of_subset other there Set.Subset.rfl

theorem mem_pairs {count : Nat} {pair : Nat × Nat} :
    pair ∈ pairs count ↔ pair.1 < pair.2 ∧ pair.2 < count := by
  obtain ⟨first, second⟩ := pair
  simp only [pairs, List.mem_flatMap, List.mem_map, List.mem_filter, List.mem_range,
    decide_eq_true_eq, Prod.mk.injEq]
  constructor
  · rintro ⟨_, -, _, ⟨below, above⟩, rfl, rfl⟩
    exact ⟨above, below⟩
  · rintro ⟨above, below⟩
    exact ⟨first, Nat.lt_trans above below, second, ⟨below, above⟩, rfl, rfl⟩

/-- All pairs: the first place with those in between, the first with the last, and the others. -/
theorem pairs_eq (last : Nat) : ∃ gathering scattering,
    pairs (last + 2) = gathering ++ (0, last + 1) :: scattering ∧
      (∀ place, 0 < place → place < last + 1 → (0, place) ∈ gathering) ∧
      ∀ place, 0 < place → place < last + 1 → (place, last + 1) ∈ scattering := by
  refine ⟨((List.range (last + 1)).filter fun second => 0 < second).map fun second => (0, second),
    ((List.range (last + 1)).map Nat.succ).flatMap fun first =>
      ((List.range (last + 2)).filter fun second => first < second).map fun second =>
        (first, second), ?_, ?_, ?_⟩
  · rw [pairs, List.range_succ_eq_map (n := last + 1), List.flatMap_cons,
      ← List.range_succ_eq_map, List.range_succ (n := last + 1), List.filter_append,
      List.map_append, List.append_assoc]
    rfl
  · intro place above below
    have listed : place ∈ (List.range (last + 1)).filter fun second => 0 < second :=
      List.mem_filter.mpr ⟨List.mem_range.mpr below, decide_eq_true above⟩
    exact List.mem_map_of_mem listed
  · intro place above below
    obtain ⟨before, rfl⟩ : ∃ before, place = before + 1 := ⟨place - 1, by omega⟩
    simp only [List.mem_flatMap, List.mem_map, List.mem_filter, List.mem_range, decide_eq_true_eq]
    exact ⟨_, ⟨before, by omega, rfl⟩, last + 1, ⟨by omega, below⟩, rfl⟩

/-- One ordered pass over all pairs brings everything everywhere. -/
theorem foldl_pool_pairs {count : Nat} (holdings : Nat → Set α) (here : place < count) :
    (pairs count).foldl pool holdings place = ⋃ other < count, holdings other := by
  apply Set.Subset.antisymm
  · refine foldl_pool_subset (fun pair mem => ?_) here
    obtain ⟨above, below⟩ := mem_pairs.mp mem
    exact ⟨Nat.lt_trans above below, below⟩
  · match count with
    | 0 => contradiction
    | 1 =>
      obtain rfl : place = 0 := Nat.lt_one_iff.mp here
      simp [subset_foldl_pool]
    | last + 2 =>
      obtain ⟨gathering, scattering, split, gathers, scatters⟩ := pairs_eq last
      rw [split, List.foldl_append, List.foldl_cons]
      -- before the first place meets the last it has what all places in between had
      have gathered : ∀ other < last + 1, holdings other ⊆ gathering.foldl pool holdings 0 := by
        intro other below
        rcases Nat.eq_zero_or_pos other with rfl | above
        · exact subset_foldl_pool ..
        · exact subset_foldl_pool_of_mem (gathers other above below)
      have met : ⋃ other < last + 2, holdings other ⊆
          gathering.foldl pool holdings 0 ∪ gathering.foldl pool holdings (last + 1) := by
        refine Set.iUnion₂_subset fun other below => ?_
        rcases Nat.lt_succ_iff_lt_or_eq.mp below with inner | rfl
        · exact (gathered other inner).trans Set.subset_union_left
        · exact (subset_foldl_pool ..).trans Set.subset_union_right
      have pooled {outer : Nat} (extreme : outer = 0 ∨ outer = last + 1) :
          ⋃ other < last + 2, holdings other ⊆
            pool (gathering.foldl pool holdings) (0, last + 1) outer := by
        rwa [pool, if_pos extreme]
      by_cases extreme : place = 0 ∨ place = last + 1
      · exact (pooled extreme).trans (subset_foldl_pool ..)
      · have above : 0 < place := by omega
        have below : place < last + 1 := by omega
        exact (pooled (.inr rfl)).trans (subset_foldl_pool_of_mem (scatters place above below))

end Hashgraph.Network
