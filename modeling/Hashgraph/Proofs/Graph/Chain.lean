import Mathlib.Data.List.Pairwise
import Hashgraph.Proofs.Graph.Acyclicity
import Hashgraph.Proofs.Graph.Termination

/-! The removals along a chain, told by the chain as it was before. A chain is the list of the events
from a start down to where the self-parents leave the graph. The generations fall along it, so that
no event stands on it twice and what a watermark expires is its end. -/

namespace Hashgraph.ShadowGraph

variable {ε : Type} [DagEvent ε]

/-- The unbroken chain of held self-parents from a cursor on, youngest first. It ends only where
there is no further self-parent or the graph does not hold it. -/
inductive Chain (g : ShadowGraph ε) : Option EventHash → List ε → Prop
  | stop {cursor : Option EventHash} (absent : ∀ hash ∈ cursor, hash ∉ g) : Chain g cursor []
  | step {hash : EventHash} {event : ε} {below : List ε} (held : g.event? hash = some event)
    (chain : Chain g ((DagEvent.selfParent event).map Descriptor.hash) below) :
    Chain g (some hash) (event :: below)

/-- The outcome of a removal that takes the listed events away, and nothing else, and counts them. -/
structure Sheds (g : ShadowGraph ε) (gone : List ε) (outcome : Nat × ShadowGraph ε) : Prop where
  nodup : (gone.map DagEvent.hash).Nodup
  count_eq : outcome.1 = gone.length
  pruned : g.Pruned {other | other ∈ gone.map DagEvent.hash} outcome.2

def removeSelfAncestryWithin (limit : Nat) (g : ShadowGraph ε) (hash : EventHash)
    (matching : Shadow ε → Bool) : Option (Nat × ShadowGraph ε) :=
  g.removeChainWithin matching limit (some hash)

def removeStrictSelfAncestryWithin (limit : Nat) (g : ShadowGraph ε) (hash : EventHash)
    (matching : Shadow ε → Bool) : Option (Nat × ShadowGraph ε) :=
  g.removeChainWithin matching limit
    ((g.get? hash).bind fun shadow => shadow.selfParent.map Descriptor.hash)

structure ChainRemovals (g : ShadowGraph ε) (start : EventHash) (matching : ε → Bool)
    (chain : List ε) : Prop where
  isChain : g.Chain (some start) chain
  whole : g.Sheds (chain.filter matching) (g.removeSelfAncestry start fun shadow => matching shadow.event)
  strict : g.Sheds (chain.tail.filter matching)
    (g.removeStrictSelfAncestry start fun shadow => matching shadow.event)
  start_stays : start ∈ g →
    start ∈ (g.removeStrictSelfAncestry start fun shadow => matching shadow.event).2
  whole_ends : ∀ limit, g.size < limit →
    removeSelfAncestryWithin limit g start (fun shadow => matching shadow.event) =
      some (g.removeSelfAncestry start fun shadow => matching shadow.event)
  strict_ends : ∀ limit, g.size < limit →
    removeStrictSelfAncestryWithin limit g start (fun shadow => matching shadow.event) =
      some (g.removeStrictSelfAncestry start fun shadow => matching shadow.event)

section Lists

variable {α : Type} {listed : List α} {counts : α → Bool}

theorem filter_suffix_of_pairwise (passes : listed.Pairwise fun first later =>
    counts first → counts later) : listed.filter counts <:+ listed := by
  induction listed with
  | nil => exact List.suffix_rfl
  | cons first rest ih =>
    obtain ⟨onward, restPasses⟩ := List.pairwise_cons.mp passes
    by_cases here : counts first
    · have all : ∀ item ∈ first :: rest, counts item :=
        List.forall_mem_cons.mpr ⟨here, fun item mem => onward item mem here⟩
      exact ⟨[], (List.nil_append _).trans (List.filter_eq_self.mpr all)⟩
    · rw [List.filter_cons_of_neg here]
      exact (ih restPasses).trans (List.suffix_cons first rest)

end Lists

variable {g g' : ShadowGraph ε} {cursor : Option EventHash} {listed : List ε}

namespace Chain

theorem held (chain : g.Chain cursor listed) (linked : g.Linked) :
    ∀ event ∈ listed, g.event? (DagEvent.hash event) = some event := by
  induction chain with
  | stop _ => exact fun _ mem => (List.not_mem_nil mem).elim
  | step held _ ih =>
    refine List.forall_mem_cons.mpr ⟨?_, ih⟩
    rw [linked.hash_eq held, held]

theorem onChain_iff (chain : g.Chain cursor listed) (linked : g.Linked) {other : EventHash} :
    g.OnChain cursor other ↔ other ∈ listed.map DagEvent.hash := by
  induction chain with
  | stop absent =>
    refine iff_of_false ?_ List.not_mem_nil
    rintro ⟨start, same, held, _⟩
    exact absent start same held
  | step held _ ih =>
    rw [onChain_some held, ih, List.map_cons, List.mem_cons, linked.hash_eq held]

theorem pairwise (chain : g.Chain cursor listed) (linked : g.Linked) (falling : g.Falling) :
    listed.Pairwise fun younger older => DagEvent.generation older < DagEvent.generation younger := by
  induction chain with
  | stop _ => exact .nil
  | step held below ih =>
    refine List.pairwise_cons.mpr ⟨fun older mem => ?_, ih⟩
    apply falling.lt_of_onChain held (below.held linked older mem)
    exact (below.onChain_iff linked).mpr (List.mem_map_of_mem mem)

theorem nodup (chain : g.Chain cursor listed) (linked : g.Linked) (falling : g.Falling) :
    (listed.map DagEvent.hash).Nodup := by
  refine List.pairwise_map.mpr ((chain.pairwise linked falling).imp_of_mem ?_)
  intro younger older youngerMem olderMem below same
  have found := chain.held linked younger youngerMem
  rw [same, chain.held linked older olderMem] at found
  rw [Option.some.inj found] at below
  exact Int64.lt_irrefl below

/-- What a watermark expires of a chain is the end of it. -/
theorem expired_suffix (chain : g.Chain cursor listed) (linked : g.Linked) (falling : g.Falling)
    (watermark : Generation) :
    listed.filter (fun event => DagEvent.generation event ≤ watermark) <:+ listed := by
  apply filter_suffix_of_pairwise
  refine (chain.pairwise linked falling).imp fun {younger older} below expired => ?_
  rw [decide_eq_true_iff] at expired ⊢
  exact Int64.le_of_lt (Int64.lt_of_lt_of_le below expired)

theorem start_not_mem_tail {start : EventHash} (chain : g.Chain (some start) listed)
    (linked : g.Linked) (falling : g.Falling) : start ∉ listed.tail.map DagEvent.hash := by
  have nodup := chain.nodup linked falling
  cases chain with
  | stop _ => exact List.not_mem_nil
  | step held below =>
    rw [List.map_cons, List.nodup_cons, linked.hash_eq held] at nodup
    exact nodup.1

theorem tail {start : EventHash} (chain : g.Chain (some start) listed) :
    g.Chain ((g.get? start).bind fun shadow => shadow.selfParent.map Descriptor.hash)
      listed.tail := by
  cases chain with
  | stop absent =>
    rw [get?_eq_none.mpr (absent start rfl)]
    exact .stop fun _ mem => (Option.not_mem_none _ mem).elim
  | step held below =>
    obtain ⟨shadow, found, rfl⟩ := exists_shadow held
    rw [found]
    exact below

theorem prune (chain : g.Chain cursor listed) (linked : g.Linked) {gone : Set EventHash}
    (pruned : g.Pruned gone g') (stays : ∀ event ∈ listed, DagEvent.hash event ∉ gone) :
    g'.Chain cursor listed := by
  induction chain with
  | stop absent => exact .stop fun hash mem held => absent hash mem (pruned.mem_iff.mp held).2
  | step held _ ih =>
    obtain ⟨here, below⟩ := List.forall_mem_cons.mp stays
    rw [linked.hash_eq held] at here
    exact .step ((pruned.event?_kept here).trans held) (ih below)

theorem matchingOn_eq (chain : g.Chain cursor listed) (linked : g.Linked) (matching : ε → Bool) :
    g.matchingOn matching cursor = {other | other ∈ (listed.filter matching).map DagEvent.hash} := by
  ext other
  simp only [matchingOn, Set.mem_ofPred_eq, chain.onChain_iff linked, List.mem_map, List.mem_filter]
  constructor
  · rintro ⟨⟨event, mem, rfl⟩, same, found, matches'⟩
    rw [chain.held linked event mem] at found
    exact ⟨event, ⟨mem, Option.some.inj found ▸ matches'⟩, rfl⟩
  · rintro ⟨event, ⟨mem, matches'⟩, rfl⟩
    exact ⟨⟨event, mem, rfl⟩, event, chain.held linked event mem, matches'⟩

theorem count_eq {matching : ε → Bool} (chain : g.Chain cursor listed) (linked : g.Linked)
    (falling : g.Falling) {limit : Nat} {outcome : Nat × ShadowGraph ε}
    (walked : g.removeChainWithin (fun shadow => matching shadow.event) limit cursor = some outcome) :
    outcome.1 = (listed.filter matching).length := by
  induction limit generalizing g cursor listed outcome with
  | zero => contradiction
  | succ limit ih =>
    cases chain with
    | stop absent =>
      cases cursor with
      | none =>
        obtain rfl := Option.some.inj walked
        rfl
      | some hash =>
        simp only [removeChainWithin, get?_eq_none.mpr (absent hash rfl)] at walked
        obtain rfl := Option.some.inj walked
        rfl
    | @step hash event below held chain =>
      obtain ⟨shadow, found, rfl⟩ := exists_shadow held
      simp only [removeChainWithin, found] at walked
      split at walked
      · rename_i here
        have pruned := linked.remove_pruned hash
        have persists := chain.prune linked pruned fun older mem (same : _ = hash) =>
          (Chain.step held chain).start_not_mem_tail linked falling (same ▸ List.mem_map_of_mem mem)
        obtain ⟨⟨count, rest⟩, later, rfl⟩ := Option.map_eq_some_iff.mp walked
        have counted := ih persists (pruned.linked linked) (falling.pruned pruned) later
        rw [List.filter_cons_of_pos here, List.length_cons, ← counted]
      · rename_i stays
        rw [List.filter_cons_of_neg stays]
        exact ih chain linked falling walked

theorem sheds (chain : g.Chain cursor listed) (linked : g.Linked) (falling : g.Falling)
    (matching : ε → Bool) :
    g.Sheds (listed.filter matching) (g.removeChain (fun shadow => matching shadow.event) ∅ cursor) where
  nodup := (chain.nodup linked falling).sublist (List.filter_sublist.map _)
  count_eq := chain.count_eq linked falling
    ((IsPartOf.refl g).removeChainWithin_eq falling _ cursor (Nat.lt_succ_self _))
  pruned := chain.matchingOn_eq linked matching ▸ linked.removeChain_pruned falling matching cursor

end Chain

theorem exists_chain_of_held
    (reaches : ∀ {hash : EventHash} {event : ε}, hash ∈ cursor → g.event? hash = some event →
      ∃ listed, g.Chain (some hash) listed) : ∃ listed, g.Chain cursor listed := by
  cases cursor with
  | none => exact ⟨[], .stop fun _ mem => (Option.not_mem_none _ mem).elim⟩
  | some hash =>
    cases found : g.event? hash with
    | none =>
      refine ⟨[], .stop fun other mem => ?_⟩
      exact Option.some.inj mem ▸ event?_eq_none.mp found
    | some event => exact reaches rfl found

/-- From every cursor there is a chain, since the held events below it get fewer. -/
theorem Falling.exists_chain (falling : g.Falling) (cursor : Option EventHash) :
    ∃ listed, g.Chain cursor listed := by
  have reaches {hash : EventHash} {event : ε} (held : g.event? hash = some event) :
      ∃ listed, g.Chain (some hash) listed := by
    induction fewer : g.countBelow (DagEvent.generation event) using Nat.strong_induction_on
      generalizing hash event with
    | h count ih =>
      have below : ∃ listed, g.Chain ((DagEvent.selfParent event).map Descriptor.hash) listed := by
        refine exists_chain_of_held fun {parent older} names found => ?_
        have less := countBelow_lt found (falling held names found)
        exact ih _ (fewer ▸ less) found rfl
      obtain ⟨listed, chain⟩ := below
      exact ⟨event :: listed, .step held chain⟩
  exact exists_chain_of_held fun _ held => reaches held

/-- In a graph in which generations fall along the self-parents: both removals take away exactly what
matches on the chain as it was before, the one from the start down, the other strictly below the
start, and they count it. Neither takes more rounds than there are shadows, and one to see the end.
What a watermark expires of a chain is the end of it. -/
theorem removals_of_edits (edits : List (Edit ε))
    (falling : ((∅ : ShadowGraph ε).editAll edits).Falling) (start : EventHash)
    (matching : ε → Bool) :
    let g := (∅ : ShadowGraph ε).editAll edits
    ∃ chain, g.ChainRemovals start matching chain ∧ ∀ watermark,
      chain.filter (fun event => DagEvent.generation event ≤ watermark) <:+ chain ∧
      chain.tail.filter (fun event => DagEvent.generation event ≤ watermark) <:+ chain.tail := by
  intro g
  have linked : g.Linked := (Ordered.empty.editAll edits).toLinked
  obtain ⟨listed, chain⟩ := falling.exists_chain (some start)
  have below := chain.tail
  refine ⟨listed, ⟨chain, chain.sheds linked falling matching, below.sheds linked falling matching,
    ?_, ?_, ?_⟩, fun watermark => ⟨chain.expired_suffix linked falling watermark,
      below.expired_suffix linked falling watermark⟩⟩
  · intro held
    have pruned := (below.sheds linked falling matching).pruned
    refine pruned.mem_iff.mpr ⟨fun gone => ?_, held⟩
    exact chain.start_not_mem_tail linked falling ((List.filter_sublist.map _).subset gone)
  · exact fun limit large => (IsPartOf.refl g).removeChainWithin_eq falling _ _ large
  · exact fun limit large => (IsPartOf.refl g).removeChainWithin_eq falling _ _ large

section Offers

variable {edits : List (Edit ε)} {hash : EventHash} {event : ε}

theorem event?_edit {change : Edit ε} (held : (g.edit change).event? hash = some event) :
    g.event? hash = some event ∨ change = .insert event := by
  cases change with
  | insert offered =>
    cases inserted : g.insert offered with
    | ok after =>
      rw [edit_insert_ok inserted, event?_insert inserted] at held
      split at held
      · exact .inr (congrArg Edit.insert (Option.some.inj held))
      · exact .inl held
    | error fault =>
      rw [edit_insert_error inserted] at held
      exact .inl held
  | remove gone =>
    rw [edit, event?_remove] at held
    split at held
    · contradiction
    · exact .inl held
  | clear =>
    rw [edit, event?_empty] at held
    contradiction

theorem event?_editAll (held : (g.editAll edits).event? hash = some event) :
    g.event? hash = some event ∨ .insert event ∈ edits := by
  induction edits generalizing g with
  | nil => exact .inl held
  | cons change rest ih =>
    rcases ih held with earlier | mem
    · rcases event?_edit earlier with before | rfl
      · exact .inl before
      · exact .inr List.mem_cons_self
    · exact .inr (List.mem_cons_of_mem _ mem)

/-- Where generations rise along the self-parents of what goes in, they fall in the graph. -/
theorem falling_of_ascending (ascending : IsAscending {event | Edit.insert event ∈ edits}) :
    ((∅ : ShadowGraph ε).editAll edits).Falling := by
  have linked := (Ordered.empty.editAll edits).toLinked
  have offered {hash : EventHash} {event : ε}
      (held : ((∅ : ShadowGraph ε).editAll edits).event? hash = some event) :
      Edit.insert event ∈ edits := by
    rcases event?_editAll held with before | mem
    · rw [event?_empty] at before
      contradiction
    · exact mem
  intro child parent event older held names found
  rw [← linked.hash_eq found] at names
  exact ascending (offered held) (offered found) names

end Offers

/-- A chain of four events with a fork at the second of them. -/
def ladder : List Outline :=
  [⟨.filled 1, 0, none, none⟩,
    ⟨.filled 2, 1, some ⟨.filled 1, 0⟩, none⟩,
    ⟨.filled 3, 2, some ⟨.filled 2, 1⟩, none⟩,
    ⟨.filled 4, 5, some ⟨.filled 3, 2⟩, some ⟨.filled 5, 4⟩⟩,
    ⟨.filled 5, 4, some ⟨.filled 2, 1⟩, none⟩]

theorem removals_of_ladder :
    let g := (∅ : ShadowGraph Outline).editAll (ladder.map Edit.insert)
    let matching := fun event : Outline => decide (event.hash ≠ .filled 3)
    g.Falling ∧ (g.removeSelfAncestry (.filled 4) fun shadow => matching shadow.event).1 = 3 ∧
      ∃ chain, g.ChainRemovals (.filled 4) matching chain := by
  intro g matching
  have history : IsHistory {event | event ∈ ladder} := by decide +kernel
  have falling : g.Falling := by
    apply falling_of_ascending
    apply IsAscending.mono history.isAscending
    intro event mem
    obtain ⟨offered, listed, same⟩ := List.mem_map.mp mem
    exact Edit.insert.inj same ▸ listed
  obtain ⟨chain, removals, -⟩ := removals_of_edits _ falling (.filled 4) matching
  have counted : (removeSelfAncestryWithin 6 g (.filled 4) fun shadow =>
      matching shadow.event).map Prod.fst = some 3 := by decide +kernel
  rw [removals.whole_ends 6 (by decide +kernel)] at counted
  exact ⟨falling, Option.some.inj counted, chain, removals⟩

end Hashgraph.ShadowGraph
