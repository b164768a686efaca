import Hashgraph.Proofs.Event.History
import Hashgraph.Proofs.Graph.Acyclicity

/-! Traversals from a shadow to what comes after it. The three loops find the same by different
checks, whatever order the children are listed in, and each ends: it takes as many steps as the
shadows that it starts from and visits have children. -/

namespace Hashgraph.ShadowGraph

variable {ε : Type}

/-- The search in at most `limit` steps, and none if they do not suffice. -/
def searchWithin (g : ShadowGraph ε) (next : Shadow ε → List EventHash) :
    Nat → EventHashSet → List EventHash → Option (List EventHash)
  | _, _, [] => some []
  | 0, _, _ :: _ => none
  | limit + 1, visited, hash :: todo =>
    match g.get? hash with
    | none => searchWithin g next limit visited todo
    | some shadow =>
      if hash ∈ visited then searchWithin g next limit visited todo
      else (searchWithin g next limit (visited.insert hash) (next shadow ++ todo)).map (hash :: ·)

def askWithin {m : Type → Type} [Monad m] (g : ShadowGraph ε) (next : Shadow ε → List EventHash)
    (question : EventHash → m Bool) : Nat → EventHashSet → List EventHash → m (Option Bool)
  | _, _, [] => pure (some false)
  | 0, _, _ :: _ => pure none
  | limit + 1, visited, hash :: todo =>
    if hash ∈ visited then askWithin g next question limit visited todo
    else
      match g.get? hash with
      | none => askWithin g next question limit (visited.insert hash) todo
      | some shadow => do
        if ← question hash then pure (some true)
        else askWithin g next question limit (visited.insert hash) (next shadow ++ todo)

def outgoing (g : ShadowGraph ε) (next : Shadow ε → List EventHash) (hash : EventHash) :
    List EventHash :=
  (g.get? hash).elim [] next

def workload (g : ShadowGraph ε) (next : Shadow ε → List EventHash) (hashes : List EventHash) : Nat :=
  (hashes.flatMap (g.outgoing next)).length

variable {g : ShadowGraph ε} {next listing : Shadow ε → List EventHash}

theorem outgoing_of_get? {hash : EventHash} {shadow : Shadow ε} (held : g.get? hash = some shadow) :
    g.outgoing next hash = next shadow := by
  rw [outgoing, held, Option.elim_some]

@[simp] theorem workload_cons (hash : EventHash) (hashes : List EventHash) :
    g.workload next (hash :: hashes) = (g.outgoing next hash).length + g.workload next hashes := by
  rw [workload, List.flatMap_cons, List.length_append]
  rfl

theorem searchFrom_eq (hash : EventHash) :
    g.searchFrom next hash = g.search next ∅ (g.outgoing next hash) := by
  unfold searchFrom outgoing
  cases g.get? hash with
  | none => rw [Option.elim_none, search]
  | some shadow => rfl

/-- Every step takes a hash off the worklist, and every visited shadow adds what it leads to. -/
theorem searchWithin_eq {visited : EventHashSet} {todo : List EventHash} {limit : Nat}
    (enough : todo.length + g.workload next (g.search next visited todo) ≤ limit) :
    g.searchWithin next limit visited todo = some (g.search next visited todo) := by
  fun_induction g.search next visited todo generalizing limit with
  | case1 => rw [searchWithin]
  | case2 visited hash todo absent ih =>
    rw [List.length_cons] at enough
    obtain ⟨limit, rfl⟩ := Nat.exists_eq_add_one.mpr (show 0 < limit by omega)
    simp only [searchWithin, absent]
    exact ih (by omega)
  | case3 visited hash todo shadow held again ih =>
    rw [List.length_cons] at enough
    obtain ⟨limit, rfl⟩ := Nat.exists_eq_add_one.mpr (show 0 < limit by omega)
    simp only [searchWithin, held, if_pos again]
    exact ih (by omega)
  | case4 visited hash todo shadow held fresh ih =>
    rw [List.length_cons, workload_cons, outgoing_of_get? held] at enough
    obtain ⟨limit, rfl⟩ := Nat.exists_eq_add_one.mpr (show 0 < limit by omega)
    have later := @ih limit (by rw [List.length_append]; omega)
    simp only [searchWithin, held, if_neg fresh]
    rw [later, Option.map_some]

/-- What comes out within the limit is what the search finds. -/
theorem search_of_within {visited : EventHashSet} {todo found : List EventHash} {limit : Nat}
    (within : g.searchWithin next limit visited todo = some found) :
    g.search next visited todo = found := by
  fun_induction g.searchWithin next limit visited todo generalizing found with
  | case1 =>
    rw [search]
    exact Option.some.inj within
  | case2 => contradiction
  | case3 limit visited hash todo absent ih =>
    rw [search_absent absent]
    exact ih within
  | case4 limit visited hash todo shadow held again ih =>
    rw [search_held held, if_pos again]
    exact ih within
  | case5 limit visited hash todo shadow held fresh ih =>
    obtain ⟨later, rest, rfl⟩ := Option.map_eq_some_iff.mp within
    rw [search_held held, if_neg fresh, ih rest]

theorem searchFrom_of_within (limit : Nat) {hash : EventHash} {found : List EventHash}
    (within : g.searchWithin next limit ∅ (g.outgoing next hash) = some found) :
    g.searchFrom next hash = found := by
  rw [searchFrom_eq]
  exact search_of_within within

section Question

variable {m : Type → Type} [Monad m] [LawfulMonad m] {question : EventHash → m Bool}

theorem askWithin_eq {visited asked : EventHashSet} {todo found : List EventHash} {limit : Nat}
    (same : ∀ hash ∈ g, hash ∈ asked ↔ hash ∈ visited)
    (within : g.searchWithin next limit visited todo = some found) :
    g.askWithin next question limit asked todo = some <$> found.anyM question := by
  fun_induction g.searchWithin next limit visited todo generalizing asked found with
  | case1 limit visited =>
    cases within
    rw [askWithin, List.anyM_nil, map_pure]
  | case2 => contradiction
  | case3 limit visited hash todo absent ih =>
    rw [askWithin]
    split
    · exact ih same within
    · simp only [absent]
      exact ih (agree_insert_absent same absent) within
  | case4 limit visited hash todo shadow held again ih =>
    rw [askWithin, if_pos ((same hash (mem_of_event? (event?_of_get? held))).mpr again)]
    exact ih same within
  | case5 limit visited hash todo shadow held fresh ih =>
    obtain ⟨later, rest, rfl⟩ := Option.map_eq_some_iff.mp within
    rw [askWithin, if_neg fun mem => fresh ((same hash (mem_of_event? (event?_of_get? held))).mp mem)]
    simp only [held]
    rw [List.anyM_cons, map_bind]
    refine bind_congr fun answer => ?_
    cases answer with
    | true => exact (map_pure some true).symm
    | false => exact ih (agree_insert same hash) rest

/-- Whoever is always told no is asked of everything, once for each place. -/
theorem run_anyM_of_no {σ : Type} {question : EventHash → StateM σ Bool}
    (no : ∀ hash state, ((question hash).run state).1 = false) (items : List EventHash) (state : σ) :
    (items.anyM question).run state =
      (false, items.foldl (fun state hash => ((question hash).run state).2) state) := by
  induction items generalizing state with
  | nil => rfl
  | cons hash rest ih =>
    have answer : (question hash).run state = (false, ((question hash).run state).2) :=
      Prod.ext (no hash state) rfl
    rw [List.anyM_cons, StateT.run_bind, answer]
    exact ih _

end Question

/-- What a traversal answers: all that one or more steps lead to, each once. Its loop ends on a
bound that the children of what it finds give. -/
structure Traverses (g : ShadowGraph ε) (next : Shadow ε → List EventHash)
    (along : EventHash → EventHash → Prop) (hash : EventHash) (found : List EventHash) : Prop where
  nodup : found.Nodup
  mem_iff : ∀ {other : EventHash}, other ∈ found ↔ other ∈ g ∧ Relation.TransGen along hash other
  ends : ∀ {limit : Nat}, g.workload next (hash :: found) ≤ limit →
    g.searchWithin next limit ∅ (g.outgoing next hash) = some found

namespace Traverses

variable {along : EventHash → EventHash → Prop} {hash : EventHash} {found other : List EventHash}

theorem of_leads (same : g.Leads next = along)
    (stays : ∀ {parent child : EventHash}, along parent child → child ∈ g) (hash : EventHash) :
    g.Traverses next along hash (g.searchFrom next hash) where
  nodup := by
    rw [searchFrom_eq]
    exact search_nodup ..
  mem_iff {other} := by
    subst along
    rw [mem_searchFrom stays]
    refine (and_iff_right_of_imp fun path => ?_).symm
    obtain ⟨_, _, step⟩ := Relation.TransGen.tail'_iff.mp path
    exact stays step
  ends {limit} enough := by
    rw [workload_cons, searchFrom_eq] at enough
    rw [searchFrom_eq]
    exact searchWithin_eq enough

theorem perm (traverses : g.Traverses next along hash found)
    (reordered : g.Traverses listing along hash other) : other.Perm found :=
  (List.perm_ext_iff_of_nodup reordered.nodup traverses.nodup).mpr fun _ =>
    reordered.mem_iff.trans traverses.mem_iff.symm

end Traverses

theorem leads_congr (same : ∀ shadow, (listing shadow).Perm (next shadow)) :
    g.Leads listing = g.Leads next := by
  funext hash child
  simp only [Leads, (same _).mem_iff]

variable [DagEvent ε]

section Linked

variable (linked : g.Linked)

include linked

theorem Linked.traverses_children (anyOrder : ∀ shadow, (listing shadow).Perm shadow.children)
    (hash : EventHash) : g.Traverses listing g.Begets hash (g.searchFrom listing hash) := by
  have same : g.Leads listing = g.Begets := by
    rw [leads_congr anyOrder]
    funext parent child
    exact propext leads_children
  refine .of_leads same (fun step => ?_) hash
  obtain ⟨line, recorded⟩ := step
  exact linked.child_mem recorded

theorem Linked.traverses_selfChildren
    (anyOrder : ∀ shadow, (listing shadow).Perm shadow.selfChildren.toList) (hash : EventHash) :
    g.Traverses listing (g.IsChild .self) hash (g.searchFrom listing hash) := by
  have same : g.Leads listing = g.IsChild .self := by
    have reordered : g.Leads listing = g.Leads (·.selfChildren.toList) := leads_congr anyOrder
    rw [reordered]
    funext parent child
    exact propext leads_selfChildren
  exact .of_leads same linked.child_mem hash

end Linked

/-- Whatever goes into a graph and out of it again, and in whatever order children are listed: the
descendants of a hash are what recorded children of either kind lead to, the self-descendants what
self-children lead to, and a search with a question asks of the descendants, one after the other. -/
theorem traversals_of_edits {σ : Type} (edits : List (Edit ε)) (hash : EventHash)
    {listing selfListing : Shadow ε → List EventHash}
    (anyOrder : ∀ shadow, (listing shadow).Perm shadow.children)
    (anySelfOrder : ∀ shadow, (selfListing shadow).Perm shadow.selfChildren.toList) :
    let g := (∅ : ShadowGraph ε).editAll edits
    let found := g.searchFrom listing hash
    let own := g.searchFrom selfListing hash
    (g.Traverses listing g.Begets hash found ∧ hash ∉ found ∧ found.Perm (g.descendants hash)) ∧
    (g.Traverses selfListing (g.IsChild .self) hash own ∧ own.Perm (g.strictSelfDescendants hash)) ∧
    (∀ predicate : EventHash → Bool,
      Id.run (g.askFrom listing hash fun other => pure (predicate other)) =
        g.anyDescendant hash predicate ∧
      (g.anyDescendant hash predicate ↔ ∃ other ∈ g.descendants hash, predicate other)) ∧
    (∀ question : EventHash → StateM σ Bool,
      g.askFrom listing hash question = found.anyM question ∧
      (∀ limit, g.workload listing (hash :: found) ≤ limit →
        g.askWithin listing question limit ∅ (g.outgoing listing hash) =
          some <$> g.askFrom listing hash question) ∧
      ((∀ other state, ((question other).run state).1 = false) →
        ∀ state, (g.askFrom listing hash question).run state =
          (false, found.foldl (fun state other => ((question other).run state).2) state))) := by
  intro g found own
  have ordered : g.Ordered := Ordered.empty.editAll edits
  have traverses : g.Traverses listing g.Begets hash found :=
    ordered.traverses_children anyOrder hash
  have plain : g.Traverses Shadow.children g.Begets hash (g.descendants hash) :=
    ordered.traverses_children (fun _ => .refl _) hash
  have ownTraverses : g.Traverses selfListing (g.IsChild .self) hash own :=
    ordered.traverses_selfChildren anySelfOrder hash
  have ownPlain : g.Traverses (fun shadow => shadow.selfChildren.toList) (g.IsChild .self) hash
      (g.strictSelfDescendants hash) := ordered.traverses_selfChildren (fun _ => .refl _) hash
  have perm : found.Perm (g.descendants hash) := plain.perm traverses
  refine ⟨⟨traverses, ?_, perm⟩, ⟨ownTraverses, ownPlain.perm ownTraverses⟩, ?_, ?_⟩
  · exact fun mem => ordered.acyclic hash (traverses.mem_iff.mp mem).2
  · intro predicate
    rw [anyDescendant_eq, askFrom_eq_anyM, List.any_eq_true]
    refine ⟨?_, Iff.rfl⟩
    rw [← perm.any_eq]
    exact congrArg Id.run List.anyM_pure
  · intro question
    have asks : g.askFrom listing hash question = found.anyM question := askFrom_eq_anyM hash
    refine ⟨asks, fun limit enough => ?_, fun no state => ?_⟩
    · rw [asks]
      exact askWithin_eq (fun _ _ => Iff.rfl) (traverses.ends enough)
    · rw [asks]
      exact run_anyM_of_no no found state

def diamond : List (Edit Outline) :=
  [.insert ⟨.filled 1, 0, none, none⟩,
    .insert ⟨.filled 2, 1, some ⟨.filled 1, 0⟩, none⟩,
    .insert ⟨.filled 3, 1, some ⟨.filled 1, 0⟩, none⟩,
    .insert ⟨.filled 4, 2, some ⟨.filled 2, 1⟩, some ⟨.filled 3, 1⟩⟩]

def refuse (hash : EventHash) : StateM (List EventHash) Bool := do
  modify (hash :: ·)
  return false

theorem traversals_of_diamond :
    let g := (∅ : ShadowGraph Outline).editAll diamond
    let backwards := fun shadow : Shadow Outline => shadow.children.reverse
    let found := g.searchFrom backwards (.filled 1)
    found = [.filled 3, .filled 4, .filled 2] ∧
    g.descendants (.filled 1) = [.filled 2, .filled 4, .filled 3] ∧
    g.Traverses backwards g.Begets (.filled 1) found ∧
    g.workload backwards (.filled 1 :: found) = 4 ∧
    ∀ log, (g.askFrom backwards (.filled 1) refuse).run log =
      (false, .filled 2 :: .filled 4 :: .filled 3 :: log) := by
  intro g backwards found
  have order : found = [.filled 3, .filled 4, .filled 2] :=
    searchFrom_of_within 4 (by decide +kernel)
  obtain ⟨⟨traverses, -, -⟩, -, -, questions⟩ :=
    @traversals_of_edits Outline _ (List EventHash) diamond (.filled 1) backwards
      (fun shadow => shadow.selfChildren.toList.reverse)
      (fun shadow => shadow.children.reverse_perm) (fun _ => List.reverse_perm _)
  have forwards : g.descendants (.filled 1) = [.filled 2, .filled 4, .filled 3] :=
    searchFrom_of_within 4 (by decide +kernel)
  have load : g.workload backwards (.filled 1 :: found) = 4 := by
    rw [order]
    decide +kernel
  refine ⟨order, forwards, traverses, load, fun log => ?_⟩
  obtain ⟨-, -, calls⟩ := questions refuse
  refine (calls (fun _ _ => rfl) log).trans ?_
  change (false, found.foldl _ log) = _
  rw [order]
  rfl

end Hashgraph.ShadowGraph
