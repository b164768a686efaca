import Hashgraph.Proofs.Replica.Coherence

/-! Runs of commands that may lower the watermark, from nothing or from an adopted graph, with a log
of what intake accepts. Such a run can take a parent in after its children, so links need not be
exact. Where generations rise along the self-parents, the tips are still the leaves. -/

namespace Hashgraph

open DagEvent

variable {ε : Type} [DagEvent ε] {events : Set ε}

namespace ShadowGraph

/-- Graphs that events of the set went into and were taken out of, in any order. -/
inductive Built (events : Set ε) : ShadowGraph ε → Prop
  | empty : Built events ∅
  | insert {before after : ShadowGraph ε} {event : ε} (built : Built events before)
    (offered : event ∈ events) (inserted : before.insert event = .ok after) : Built events after
  | remove {before : ShadowGraph ε} (built : Built events before) (hash : EventHash) :
    Built events (before.remove hash).2

namespace Built

variable {g : ShadowGraph ε}

theorem linked (built : Built events g) : g.Linked := by
  induction built with
  | empty => exact .empty
  | insert _ _ inserted ih => exact ih.insert inserted
  | remove _ hash ih => exact (ih.remove_pruned hash).linked ih

theorem mem_events (built : Built events g) {hash : EventHash} {event : ε}
    (held : g.event? hash = some event) : event ∈ events := by
  induction built with
  | empty =>
    rw [event?_empty] at held
    contradiction
  | insert _ offered inserted ih =>
    rw [event?_insert inserted] at held
    split at held
    · cases held
      exact offered
    · exact ih held
  | remove built gone ih =>
    exact ih ((built.linked.remove_pruned gone).event?_eq_some.mp held).2

end Built

omit [DagEvent ε] in
theorem nodup_hashes (g : ShadowGraph ε) : g.hashes.Nodup := Std.ExtTreeMap.nodup_keys

/-- A graph that took a parent in after its child. -/
def lateParent : ShadowGraph Outline :=
  match [forkedOutline 3, forkedOutline 0].foldlM insert ∅ with
  | .ok graph => graph
  | .error _ => ∅

theorem built_lateParent : Built {event | event ∈ forkedOutlines} lateParent := by
  obtain ⟨one, childIn⟩ := insert_ok (not_mem_empty (hash (forkedOutline 3)))
  have fresh : hash (forkedOutline 0) ∉ one := by
    rw [mem_insert childIn, not_or]
    exact ⟨by decide, not_mem_empty _⟩
  obtain ⟨both, parentIn⟩ := insert_ok fresh
  have whole : lateParent = both := by
    simp only [lateParent, List.foldlM_cons, List.foldlM_nil, childIn, parentIn, bind, pure,
      Except.bind, Except.pure]
  rw [whole]
  exact .insert (.insert .empty (forkedOutline_mem 3) childIn) (forkedOutline_mem 0) parentIn

end ShadowGraph

namespace Replica

open ShadowGraph

/-- Where a run starts: with nothing, or with an adopted graph, whatever the order in which its
hashes are read. -/
inductive Start (events : Set ε) : Replica ε → Prop
  | empty : Start events ∅
  | adopted {graph : ShadowGraph ε} {order : List EventHash} (built : Built events graph)
    (nodup : order.Nodup) (mem_order : ∀ hash, hash ∈ order ↔ hash ∈ graph)
    (watermark : Generation) : Start events (ofGraph graph order watermark)

def performAll (replica : Replica ε) (commands : List (Command ε)) : Replica ε :=
  commands.foldl perform replica

/-- What a command adds to the log of accepted hashes. -/
def accepted (replica : Replica ε) : Command ε → List EventHash
  | .add event => if (replica.addEvent event).1 = .insertable then [hash event] else []
  | _ => []

/-- The hashes that intake accepts in a run, in order. -/
def acceptances (replica : Replica ε) : List (Command ε) → List EventHash
  | [] => []
  | command :: rest => replica.accepted command ++ (replica.perform command).acceptances rest

def Offers (events : Set ε) (commands : List (Command ε)) : Prop :=
  ∀ event, Command.add event ∈ commands → event ∈ events

/-- What holds of a replica and the log so far holds after every command, too. -/
structure IsKept (events : Set ε) (motive : Replica ε → List EventHash → Prop) : Prop where
  add : ∀ {replica : Replica ε} {log : List EventHash} {event : ε}, event ∈ events →
    motive replica log → motive (replica.addEvent event).2 (log ++ replica.accepted (.add event))
  setWatermark : ∀ {replica : Replica ε} {log : List EventHash} (watermark : Generation),
    motive replica log → motive (replica.setWatermark watermark) log
  expire : ∀ {replica : Replica ε} {log : List EventHash}, motive replica log →
    motive replica.expire.2 log
  clear : ∀ log, motive ∅ log

variable {replica start : Replica ε}

namespace IsKept

variable {motive : Replica ε → List EventHash → Prop} {log : List EventHash}

theorem perform (kept : IsKept events motive) (holds : motive replica log) {command : Command ε}
    (offered : ∀ event, command = .add event → event ∈ events) :
    motive (replica.perform command) (log ++ replica.accepted command) := by
  cases command with
  | add event => exact kept.add (offered event rfl) holds
  | expireTo watermark =>
    simp only [Replica.perform, expireTo, accepted, List.append_nil]
    split
    · exact holds
    · exact kept.expire (kept.setWatermark watermark holds)
  | expire =>
    simp only [Replica.perform, accepted, List.append_nil]
    exact kept.expire holds
  | setWatermark watermark =>
    simp only [Replica.perform, accepted, List.append_nil]
    exact kept.setWatermark watermark holds
  | clear => exact kept.clear _

theorem performAll (kept : IsKept events motive) (log : List EventHash)
    (holds : motive replica log) {commands : List (Command ε)} (offers : Offers events commands) :
    motive (replica.performAll commands) (log ++ replica.acceptances commands) := by
  induction commands generalizing replica log with
  | nil =>
    rw [acceptances, List.append_nil]
    exact holds
  | cons command rest ih =>
    rw [acceptances, ← List.append_assoc]
    have first := kept.perform holds fun event same => offers event (same ▸ List.mem_cons_self)
    exact ih _ first fun event mem => offers event (List.mem_cons_of_mem _ mem)

end IsKept

namespace Gathered

theorem isKept (ascending : IsAscending events) :
    IsKept events fun (replica : Replica ε) _ => Gathered events replica where
  add offered gathered := gathered.addEvent ascending offered
  setWatermark watermark gathered := gathered.setWatermark watermark
  expire gathered := gathered.expire ascending
  clear _ := .empty

theorem performAll (gathered : Gathered events replica) (ascending : IsAscending events)
    {commands : List (Command ε)} (offers : Offers events commands) :
    Gathered events (replica.performAll commands) :=
  (isKept ascending).performAll [] gathered offers

end Gathered

theorem Start.gathered (starts : Start events start) : Gathered events start := by
  cases starts with
  | empty => exact .empty
  | @adopted graph order built nodup mem_order watermark =>
    refine ⟨⟨built.linked, nodup.filter _, ?_⟩, built.mem_events⟩
    intro hash
    change hash ∈ order.filter (fun hash => (graph.get? hash).any Shadow.isTip) ↔ graph.IsLeaf hash
    rw [List.mem_filter, mem_order]
    cases found : graph.get? hash with
    | none =>
      have absent := get?_eq_none.mp found
      exact iff_of_false (fun mem => absent mem.1) (fun leaf => absent leaf.1)
    | some shadow =>
      rw [isLeaf_iff_isTip found]
      exact and_iff_right (mem_of_event? (event?_of_get? found))

/-- A replica with two tips on one chain. -/
def lateParent : Replica Outline :=
  ofGraph ShadowGraph.lateParent ShadowGraph.lateParent.hashes (-1)

theorem start_lateParent : Start {event | event ∈ forkedOutlines} lateParent :=
  .adopted built_lateParent (nodup_hashes _) (fun _ => mem_hashes) (-1)

def widening : List (Command Outline) :=
  [.add (forkedOutline 1), .add (forkedOutline 2), .setWatermark 5, .setWatermark 0]

theorem offers_widening : Offers {event | event ∈ forkedOutlines} widening := by
  intro event mem
  simp only [widening, List.mem_cons, Command.add.injEq, reduceCtorEq, List.not_mem_nil,
    or_false] at mem
  rcases mem with rfl | rfl
  · exact forkedOutline_mem _
  · exact forkedOutline_mem _

/-- An event comes in while its parent is expired, and the parent after the watermark was lowered. -/
def rewinding : List (Command Outline) :=
  [.setWatermark 0, .add (forkedOutline 3), .setWatermark (-1), .add (forkedOutline 0)]

theorem offers_rewinding : Offers {event | event ∈ forkedOutlines} rewinding := by
  intro event mem
  simp only [rewinding, List.mem_cons, Command.add.injEq, reduceCtorEq, List.not_mem_nil,
    or_false, false_or] at mem
  rcases mem with rfl | rfl
  · exact forkedOutline_mem _
  · exact forkedOutline_mem _

end Replica
end Hashgraph
