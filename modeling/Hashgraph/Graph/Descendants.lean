import Hashgraph.Graph.Basic

/-! Descendants of a shadow along recorded children. A search keeps the shadows that it has
visited, so that the number of held shadows still to be visited bounds it. -/

namespace Hashgraph.ShadowGraph

variable {ε : Type}

/-- How many held shadows a search has not visited yet. -/
def unvisited (g : ShadowGraph ε) (visited : EventHashSet) : Nat :=
  g.hashes.countP fun hash => hash ∉ visited

theorem countP_lt_countP {α : Type} {p q : α → Bool} {items : List α} {item : α}
    (imp : ∀ x, p x = true → q x = true) (mem : item ∈ items) (notP : p item = false)
    (isQ : q item = true) : items.countP p < items.countP q := by
  obtain ⟨before, after, rfl⟩ := List.append_of_mem mem
  have left := List.countP_mono_left (l := before) fun x _ => imp x
  have right := List.countP_mono_left (l := after) fun x _ => imp x
  simp only [List.countP_append, List.countP_cons, notP, isQ, if_true]
  simp only [Bool.false_eq_true, if_false]
  omega

theorem unvisited_insert_lt {g : ShadowGraph ε} {visited : EventHashSet} {hash : EventHash}
    (held : hash ∈ g) (fresh : hash ∉ visited) :
    g.unvisited (visited.insert hash) < g.unvisited visited := by
  refine countP_lt_countP (fun x later => ?_) (mem_hashes.mpr held) ?_ ?_
  · simp only [Std.ExtTreeSet.mem_insert, decide_not, Bool.not_eq_true', decide_eq_false_iff_not] at *
    exact fun earlier => later (Or.inr earlier)
  · simp
  · simpa using fresh

/-- The held shadows that a worklist leads to, each once, in the order of the visit. `next` says
where to go from a shadow; hashes that are not held lead nowhere. -/
def search (g : ShadowGraph ε) (next : Shadow ε → List EventHash) (visited : EventHashSet) :
    List EventHash → List EventHash
  | [] => []
  | hash :: todo =>
    match _held : g.get? hash with
    | none => search g next visited todo
    | some shadow =>
      if hash ∈ visited then search g next visited todo
      else hash :: search g next (visited.insert hash) (next shadow ++ todo)
termination_by todo => (g.unvisited visited, todo.length)
decreasing_by
  · exact Prod.Lex.right _ (Nat.lt_succ_self _)
  · exact Prod.Lex.right _ (Nat.lt_succ_self _)
  · exact Prod.Lex.left _ _ (unvisited_insert_lt (mem_iff_isSome.mpr (by simp [_held])) ‹_›)

def searchFrom (g : ShadowGraph ε) (next : Shadow ε → List EventHash) (hash : EventHash) :
    List EventHash :=
  match g.get? hash with
  | none => []
  | some shadow => g.search next ∅ (next shadow)

theorem unvisited_insert_le (g : ShadowGraph ε) (visited : EventHashSet) (hash : EventHash) :
    g.unvisited (visited.insert hash) ≤ g.unvisited visited := by
  refine List.countP_mono_left fun other _ later => ?_
  simp only [Std.ExtTreeSet.mem_insert, decide_not, Bool.not_eq_true', decide_eq_false_iff_not] at *
  exact fun earlier => later (Or.inr earlier)

section Question

variable {m : Type → Type} [Monad m]

/-- Asks a question of the held shadows that a worklist leads to, of one after the other until the
answer is yes. Here a hash counts as visited before it is looked up. -/
def ask (g : ShadowGraph ε) (next : Shadow ε → List EventHash) (question : EventHash → m Bool)
    (visited : EventHashSet) : List EventHash → m Bool
  | [] => pure false
  | hash :: todo =>
    if hash ∈ visited then ask g next question visited todo
    else
      match _held : g.get? hash with
      | none => ask g next question (visited.insert hash) todo
      | some shadow => do
        if ← question hash then pure true
        else ask g next question (visited.insert hash) (next shadow ++ todo)
termination_by todo => (g.unvisited visited, todo.length)
decreasing_by
  · exact Prod.Lex.right _ (Nat.lt_succ_self _)
  · exact Prod.Lex.right' _ (unvisited_insert_le g visited hash) (Nat.lt_succ_self _)
  · exact Prod.Lex.left _ _ (unvisited_insert_lt (mem_iff_isSome.mpr (by simp [_held])) ‹_›)

def askFrom (g : ShadowGraph ε) (next : Shadow ε → List EventHash) (hash : EventHash)
    (question : EventHash → m Bool) : m Bool :=
  match g.get? hash with
  | none => pure false
  | some shadow => g.ask next question ∅ (next shadow)

end Question

def descendants (g : ShadowGraph ε) (hash : EventHash) : List EventHash :=
  g.searchFrom Shadow.children hash

def strictSelfDescendants (g : ShadowGraph ε) (hash : EventHash) : List EventHash :=
  g.searchFrom (fun shadow => shadow.selfChildren.toList) hash

/-- Asks a question of one descendant after the other until the answer is yes. -/
def anyDescendantM {m : Type → Type} [Monad m] (g : ShadowGraph ε) (hash : EventHash)
    (question : EventHash → m Bool) : m Bool :=
  g.askFrom Shadow.children hash question

def anyDescendant (g : ShadowGraph ε) (hash : EventHash) (predicate : EventHash → Bool) : Bool :=
  Id.run (g.anyDescendantM hash fun other => pure (predicate other))

end Hashgraph.ShadowGraph
