import Hashgraph.Graph.Descendants

/-! Removal along a self-parent chain. The walk goes on past shadows that do not match and ends
where the chain leaves the graph. On a chain that closes into a ring the walk ends when it comes
back to a shadow with nothing removed in between. -/

namespace Hashgraph.ShadowGraph

variable {ε : Type}

theorem size_adjust (g : ShadowGraph ε) (parent : Option Descriptor)
    (change : Shadow ε → Shadow ε) : (g.adjust parent change).size = g.size := by
  cases parent with
  | none => rfl
  | some parent => exact Std.ExtTreeMap.size_modify

variable [DagEvent ε]

theorem size_remove_lt {g : ShadowGraph ε} {hash : EventHash} {shadow : Shadow ε}
    (held : g.get? hash = some shadow) : (g.remove hash).2.size < g.size := by
  have mem : hash ∈ g.shadows := by
    rw [Std.ExtTreeMap.mem_iff_isSome_getElem?]
    exact Option.isSome_of_eq_some held
  have nonempty : g.shadows.size ≠ 0 := fun zero =>
    Std.ExtTreeMap.not_mem_empty (Std.ExtTreeMap.eq_empty_iff_size_eq_zero.mpr zero ▸ mem)
  simp only [remove, held, size_adjust]
  change (g.shadows.erase hash).size < g.shadows.size
  rw [Std.ExtTreeMap.size_erase, if_pos (Std.ExtTreeMap.mem_iff_contains.mp mem)]
  omega

/-- Removes the matching shadows on the chain from `cursor` on and counts them; `passed` are the
shadows that were left standing since the last removal. -/
def removeChain (g : ShadowGraph ε) (matching : Shadow ε → Bool) (passed : EventHashSet)
    (cursor : Option EventHash) : Nat × ShadowGraph ε :=
  match cursor with
  | none => (0, g)
  | some hash =>
    match _held : g.get? hash with
    | none => (0, g)
    | some shadow =>
      let parent := shadow.selfParent.map Descriptor.hash
      if matching shadow then
        let (count, rest) := removeChain (g.remove hash).2 matching ∅ parent
        (count + 1, rest)
      else if hash ∈ passed then (0, g)
      else removeChain g matching (passed.insert hash) parent
termination_by (g.size, g.unvisited passed)
decreasing_by
  · exact Prod.Lex.left _ _ (size_remove_lt _held)
  · exact Prod.Lex.right _ (unvisited_insert_lt (mem_iff_isSome.mpr (by simp [_held])) ‹_›)

def removeSelfAncestry (g : ShadowGraph ε) (hash : EventHash) (matching : Shadow ε → Bool) :
    Nat × ShadowGraph ε :=
  g.removeChain matching ∅ (some hash)

/-- Removes the matching shadows among the strict self-ancestors of a held shadow. -/
def removeStrictSelfAncestry (g : ShadowGraph ε) (hash : EventHash)
    (matching : Shadow ε → Bool) : Nat × ShadowGraph ε :=
  g.removeChain matching ∅ ((g.get? hash).bind fun shadow => shadow.selfParent.map Descriptor.hash)

end Hashgraph.ShadowGraph
