import Mathlib.Logic.Relation
import Hashgraph.Proofs.Graph.Links

/-! What a search finds. It answers held hashes that were not visited before, each once, and its
answer is closed: whatever a found shadow leads to is found or was visited. In a linked graph the
descendants of a hash are therefore what recorded children lead to. -/

namespace Hashgraph.ShadowGraph

variable {ε : Type} {g : ShadowGraph ε} {next : Shadow ε → List EventHash}

/-- The way that `next` goes in one step. -/
def Leads (g : ShadowGraph ε) (next : Shadow ε → List EventHash) (hash child : EventHash) : Prop :=
  ∃ shadow, g.get? hash = some shadow ∧ child ∈ next shadow

theorem leads_iff {hash child : EventHash} {shadow : Shadow ε} (held : g.get? hash = some shadow) :
    g.Leads next hash child ↔ child ∈ next shadow := by
  rw [Leads, held]
  simp

section Steps

variable {visited : EventHashSet} {hash : EventHash} {todo : List EventHash} {shadow : Shadow ε}

theorem search_absent (absent : g.get? hash = none) :
    g.search next visited (hash :: todo) = g.search next visited todo := by
  rw [search]
  split
  · rfl
  · rename_i shadow held
    rw [absent] at held
    contradiction

theorem search_held (held : g.get? hash = some shadow) :
    g.search next visited (hash :: todo) =
      if hash ∈ visited then g.search next visited todo
      else hash :: g.search next (visited.insert hash) (next shadow ++ todo) := by
  rw [search]
  split
  · rename_i absent
    rw [held] at absent
    contradiction
  · rename_i other found
    rw [held] at found
    cases found
    rfl

end Steps

theorem not_visited_of_mem_search {visited : EventHashSet} {todo : List EventHash}
    {hash : EventHash} (found : hash ∈ g.search next visited todo) : hash ∉ visited := by
  fun_induction g.search next visited todo with
  | case1 => exact (List.not_mem_nil found).elim
  | case2 visited first todo absent ih => exact ih found
  | case3 visited first todo shadow held again ih => exact ih found
  | case4 visited first todo shadow held fresh ih =>
    rcases List.mem_cons.mp found with rfl | later
    · exact fresh
    · exact fun mem => ih later (Std.ExtTreeSet.mem_insert.mpr (.inr mem))

theorem search_nodup (visited : EventHashSet) (todo : List EventHash) :
    (g.search next visited todo).Nodup := by
  fun_induction g.search next visited todo with
  | case1 => exact List.nodup_nil
  | case2 visited first todo absent ih => exact ih
  | case3 visited first todo shadow held again ih => exact ih
  | case4 visited first todo shadow held fresh ih =>
    exact List.nodup_cons.mpr
      ⟨fun later => not_visited_of_mem_search later Std.ExtTreeSet.mem_insert_self, ih⟩

theorem search_sound {visited : EventHashSet} {todo : List EventHash} {hash : EventHash}
    (found : hash ∈ g.search next visited todo) :
    hash ∈ g ∧ ∃ start ∈ todo, Relation.ReflTransGen (g.Leads next) start hash := by
  fun_induction g.search next visited todo with
  | case1 => exact (List.not_mem_nil found).elim
  | case2 visited first todo absent ih =>
    obtain ⟨held, start, mem, path⟩ := ih found
    exact ⟨held, start, List.mem_cons_of_mem _ mem, path⟩
  | case3 visited first todo shadow held again ih =>
    obtain ⟨held, start, mem, path⟩ := ih found
    exact ⟨held, start, List.mem_cons_of_mem _ mem, path⟩
  | case4 visited first todo shadow held fresh ih =>
    rcases List.mem_cons.mp found with rfl | later
    · exact ⟨mem_of_event? (event?_of_get? held), hash, List.mem_cons_self, .refl⟩
    · obtain ⟨later, start, mem, path⟩ := ih later
      refine ⟨later, ?_⟩
      rcases List.mem_append.mp mem with step | mem
      · exact ⟨first, List.mem_cons_self, .head ((leads_iff held).mpr step) path⟩
      · exact ⟨start, List.mem_cons_of_mem _ mem, path⟩

variable (g next) in
/-- Nothing held is left out: neither of the worklist nor of what a found shadow leads to. -/
theorem search_closed (visited : EventHashSet) (todo : List EventHash) :
    (∀ hash ∈ todo, hash ∈ g → hash ∈ visited ∨ hash ∈ g.search next visited todo) ∧
      ∀ hash ∈ g.search next visited todo, ∀ child, g.Leads next hash child → child ∈ g →
        child ∈ visited ∨ child ∈ g.search next visited todo := by
  fun_induction g.search next visited todo with
  | case1 => simp
  | case2 visited first todo absent ih =>
    refine ⟨?_, ih.2⟩
    intro hash mem held
    rcases List.mem_cons.mp mem with rfl | mem
    · exact (get?_eq_none.mp absent held).elim
    · exact ih.1 hash mem held
  | case3 visited first todo shadow held again ih =>
    refine ⟨?_, ih.2⟩
    intro hash mem held
    rcases List.mem_cons.mp mem with rfl | mem
    · exact .inl again
    · exact ih.1 hash mem held
  | case4 visited first todo shadow held fresh ih =>
    have widen {hash : EventHash}
        (found : hash ∈ visited.insert first ∨
          hash ∈ g.search next (visited.insert first) (next shadow ++ todo)) :
        hash ∈ visited ∨
          hash ∈ first :: g.search next (visited.insert first) (next shadow ++ todo) := by
      rcases found with mem | later
      · rcases Std.ExtTreeSet.mem_insert.mp mem with same | mem
        · exact .inr (List.mem_cons.mpr (.inl (Std.LawfulEqCmp.compare_eq_iff_eq.mp same).symm))
        · exact .inl mem
      · exact .inr (List.mem_cons_of_mem _ later)
    constructor
    · intro hash mem hashHeld
      rcases List.mem_cons.mp mem with rfl | mem
      · exact .inr List.mem_cons_self
      · exact widen (ih.1 hash (List.mem_append_right _ mem) hashHeld)
    · intro hash found child step childHeld
      rcases List.mem_cons.mp found with rfl | later
      · exact widen (ih.1 child (List.mem_append_left _ ((leads_iff held).mp step)) childHeld)
      · exact widen (ih.2 hash later child step childHeld)

/-- From a hash the search finds what one or more steps lead to, if no step leaves the graph. -/
theorem mem_searchFrom (stays : ∀ {hash child : EventHash}, g.Leads next hash child → child ∈ g)
    {hash other : EventHash} :
    other ∈ g.searchFrom next hash ↔ Relation.TransGen (g.Leads next) hash other := by
  unfold searchFrom
  cases held : g.get? hash with
  | none =>
    refine iff_of_false List.not_mem_nil fun path => ?_
    obtain ⟨_, ⟨shadow, found, _⟩, _⟩ := Relation.TransGen.head'_iff.mp path
    rw [held] at found
    contradiction
  | some shadow =>
    obtain ⟨starts, closed⟩ := search_closed g next ∅ (next shadow)
    constructor
    · intro found
      obtain ⟨_, start, mem, path⟩ := search_sound found
      exact .head' ((leads_iff held).mpr mem) path
    · intro path
      induction path with
      | single step =>
        exact (starts _ ((leads_iff held).mp step) (stays step)).resolve_left
          Std.ExtTreeSet.not_mem_empty
      | tail _ step ih =>
        exact (closed _ ih _ step (stays step)).resolve_left Std.ExtTreeSet.not_mem_empty

section Question

variable {m : Type → Type} [Monad m] {question : EventHash → m Bool} {visited asked : EventHashSet}

theorem agree_insert (same : ∀ hash ∈ g, hash ∈ asked ↔ hash ∈ visited) (hash : EventHash) :
    ∀ other ∈ g, other ∈ asked.insert hash ↔ other ∈ visited.insert hash := by
  intro other held
  rw [Std.ExtTreeSet.mem_insert, Std.ExtTreeSet.mem_insert, same other held]

theorem agree_insert_absent (same : ∀ hash ∈ g, hash ∈ asked ↔ hash ∈ visited) {hash : EventHash}
    (absent : g.get? hash = none) : ∀ other ∈ g, other ∈ asked.insert hash ↔ other ∈ visited := by
  intro other held
  rw [Std.ExtTreeSet.mem_insert, ← same other held]
  refine or_iff_right fun equal => ?_
  obtain rfl := Std.LawfulEqCmp.compare_eq_iff_eq.mp equal
  exact get?_eq_none.mp absent held

/-- The question goes to what the search finds, in that order. Hashes that are not held may be
visited for the one and not for the other. -/
theorem ask_eq_anyM (todo : List EventHash) (same : ∀ hash ∈ g, hash ∈ asked ↔ hash ∈ visited) :
    g.ask next question asked todo = (g.search next visited todo).anyM question := by
  fun_induction g.ask next question asked todo generalizing visited with
  | case1 => rw [search, List.anyM_nil]
  | case2 asked hash todo again ih =>
    rw [ih same]
    cases held : g.get? hash with
    | none => rw [search_absent held]
    | some shadow =>
      rw [search_held held, if_pos ((same hash (mem_of_event? (event?_of_get? held))).mp again)]
  | case3 asked hash todo fresh absent ih => rw [ih (agree_insert_absent same absent), search_absent absent]
  | case4 asked hash todo fresh shadow held ih =>
    have unvisited : hash ∉ visited := fun mem =>
      fresh ((same hash (mem_of_event? (event?_of_get? held))).mpr mem)
    rw [search_held held, if_neg unvisited, List.anyM_cons]
    refine bind_congr fun answer => ?_
    cases answer with
    | true => rfl
    | false => exact ih (agree_insert same hash)

theorem askFrom_eq_anyM (hash : EventHash) :
    g.askFrom next hash question = (g.searchFrom next hash).anyM question := by
  unfold askFrom searchFrom
  cases g.get? hash with
  | none => rfl
  | some shadow => exact ask_eq_anyM _ fun _ _ => Iff.rfl

theorem anyDescendant_eq (hash : EventHash) (predicate : EventHash → Bool) :
    g.anyDescendant hash predicate = (g.descendants hash).any predicate := by
  rw [anyDescendant, anyDescendantM, askFrom_eq_anyM]
  exact congrArg Id.run List.anyM_pure

end Question

def Begets (g : ShadowGraph ε) (parent child : EventHash) : Prop := ∃ line, g.IsChild line parent child

theorem leads_children {hash child : EventHash} :
    g.Leads Shadow.children hash child ↔ g.Begets hash child := by
  simp only [Leads, Begets, IsChild, Shadow.mem_children]
  constructor
  · rintro ⟨shadow, held, line, mem⟩
    exact ⟨line, shadow, held, mem⟩
  · rintro ⟨line, shadow, held, mem⟩
    exact ⟨shadow, held, line, mem⟩

theorem leads_selfChildren {hash child : EventHash} :
    g.Leads (fun shadow => shadow.selfChildren.toList) hash child ↔ g.IsChild .self hash child := by
  simp only [Leads, IsChild, Std.ExtTreeSet.mem_toList]
  rfl

variable [DagEvent ε]

theorem Linked.mem_descendants (linked : g.Linked) {hash other : EventHash} :
    other ∈ g.descendants hash ↔ Relation.TransGen g.Begets hash other := by
  have same : g.Leads Shadow.children = g.Begets := by
    funext parent child
    exact propext leads_children
  rw [descendants, mem_searchFrom, same]
  intro parent child step
  obtain ⟨line, recorded⟩ := leads_children.mp step
  exact linked.child_mem recorded

theorem Linked.mem_strictSelfDescendants (linked : g.Linked) {hash other : EventHash} :
    other ∈ g.strictSelfDescendants hash ↔ Relation.TransGen (g.IsChild .self) hash other := by
  have same : g.Leads (fun shadow => shadow.selfChildren.toList) = g.IsChild .self := by
    funext parent child
    exact propext leads_selfChildren
  rw [strictSelfDescendants, mem_searchFrom, same]
  exact fun step => linked.child_mem (leads_selfChildren.mp step)

end Hashgraph.ShadowGraph
