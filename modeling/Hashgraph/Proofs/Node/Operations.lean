import Hashgraph.Node.Creation
import Hashgraph.Node.Retention
import Hashgraph.Proofs.Event.Building
import Hashgraph.Proofs.Event.RoundTrip
import Hashgraph.Proofs.Replica.Coherence

/-! What a node makes of itself. Creation extends it by an event above the parents that the event
names, or leaves it as it was. Retention raises the watermark and sweeps, or leaves it as it was. -/

namespace Hashgraph

open DagEvent Replica

namespace Node

variable {node : Node} {otherParent : Option Descriptor} {transactions : List Bytes}

def extend (node : Node) (event : Event) : Node :=
  { node with
    replica := (node.replica.addEvent event).2
    lastEvent := some (descriptor event)
    stats := { node.stats with eventsCreated := node.stats.eventsCreated + 1 } }

/-- An other-parent that the node chooses is an event that it holds. -/
theorem mem_chooseOtherParent {generator : Random.Generator} {named : Descriptor}
    (chosen : named ∈ (node.chooseOtherParent generator).1) :
    ∃ event ∈ node.replica.events, descriptor event = named := by
  unfold chooseOtherParent at chosen
  split at chosen
  · contradiction
  · obtain ⟨event, held, same⟩ := Option.map_eq_some_iff.mp chosen
    exact ⟨event, ⟨_, held⟩, same⟩

theorem attempt_of_insertable {now : Timestamp} {event : Event}
    (built : (node.draft otherParent transactions).build now = .ok event)
    (insertable : node.replica.classify event = .insertable) :
    node.attempt now otherParent transactions = .created event (node.extend event) := by
  obtain ⟨graph, -, taken⟩ := addEvent_of_insertable insertable
  simp only [attempt, built, taken, extend]

theorem attempt_of_refused {now : Timestamp} {event : Event}
    (built : (node.draft otherParent transactions).build now = .ok event)
    (refused : node.replica.classify event ≠ .insertable) :
    node.attempt now otherParent transactions = .overtaken node ∨
    ∃ error, node.attempt now otherParent transactions = .failed error node := by
  simp only [attempt, built, addEvent_of_refused refused]
  split
  · rename_i taken
    exact (refused (Prod.mk.inj taken).1).elim
  · rename_i kept
    obtain ⟨-, rfl⟩ := Prod.mk.inj kept
    exact .inl rfl
  · rename_i kept
    obtain ⟨-, rfl⟩ := Prod.mk.inj kept
    exact .inr ⟨_, rfl⟩

theorem attempt_cases (node : Node) (now : Timestamp) (otherParent : Option Descriptor)
    (transactions : List Bytes) :
    (∃ event, (node.draft otherParent transactions).build now = .ok event ∧
      node.replica.classify event = .insertable ∧
      node.attempt now otherParent transactions = .created event (node.extend event)) ∨
    node.attempt now otherParent transactions = .overtaken node ∨
    ∃ error, node.attempt now otherParent transactions = .failed error node := by
  cases built : (node.draft otherParent transactions).build now with
  | error error =>
    refine .inr (.inr ⟨.event error, ?_⟩)
    rw [attempt, built]
  | ok event =>
    by_cases insertable : node.replica.classify event = .insertable
    · exact .inl ⟨event, rfl, insertable, attempt_of_insertable built insertable⟩
    · exact .inr (attempt_of_refused built insertable)

/-- Either one of the attempts extends the node, or the node is left as it was. -/
theorem createWithin_cases (node : Node) (otherParent : Option Descriptor)
    (transactions : List Bytes) (times : List Timestamp) :
    (∃ event, ∃ now ∈ times, (node.draft otherParent transactions).build now = .ok event ∧
      node.replica.classify event = .insertable ∧
      createWithin otherParent transactions times node = .ok event (node.extend event)) ∨
    ∃ error, createWithin otherParent transactions times node = .error error node := by
  induction times with
  | nil => exact .inr ⟨_, rfl⟩
  | cons now later ih =>
    rcases node.attempt_cases now otherParent transactions with
      ⟨event, built, insertable, created⟩ | overtaken | ⟨error, failed⟩
    · exact .inl ⟨event, now, List.mem_cons_self, built, insertable, by rw [createWithin, created]⟩
    · rw [createWithin, overtaken]
      refine ih.imp_left ?_
      rintro ⟨event, moment, mem, result⟩
      exact ⟨event, moment, List.mem_cons_of_mem _ mem, result⟩
    · exact .inr ⟨error, by rw [createWithin, failed]⟩

/-- What is known of an event that a node has created. -/
structure Creates (node : Node) (otherParent : Option Descriptor) (event : Event) : Prop where
  wirable : event.IsWirable
  parents : ∀ line, ∀ named ∈ parent line event,
    named.generation < generation event ∧ (node.lastEvent = some named ∨ otherParent = some named)

theorem creates_of_build {now : Timestamp} {event : Event}
    (built : (node.draft otherParent transactions).build now = .ok event)
    (count : transactions.length < UInt64.size)
    (each : ∀ transaction ∈ transactions, transaction.length < UInt64.size) :
    node.Creates otherParent event := by
  obtain ⟨settled, parents⟩ := Draft.build_eq_ok built
  refine ⟨Draft.isWirable_of_build built count each, ?_⟩
  intro line named mem
  rw [parents line] at mem
  have above := Draft.lt_of_settleGeneration rfl settled named (Draft.mem_parents.mpr ⟨line, mem⟩)
  refine ⟨above, ?_⟩
  cases line with
  | self => exact .inl mem
  | other => exact .inr mem

theorem createEvent_cases (node : Node) (clock : Nat → Timestamp) (otherParent : Option Descriptor)
    {transactions : List Bytes} (count : transactions.length < UInt64.size)
    (each : ∀ transaction ∈ transactions, transaction.length < UInt64.size) :
    (∃ event, node.Creates otherParent event ∧
      node.createEvent clock otherParent transactions = .ok event (node.extend event)) ∨
    ∃ error, node.createEvent clock otherParent transactions = .error error node := by
  refine (node.createWithin_cases otherParent transactions _).imp_left ?_
  rintro ⟨event, now, -, built, -, created⟩
  exact ⟨event, creates_of_build built count each, created⟩

theorem descent_of_build {now : Timestamp} {event : Event}
    (built : (node.draft otherParent transactions).build now = .ok event) :
    event.creator = node.creator ∧ selfParent event = node.lastEvent ∧
      DagEvent.otherParent event = otherParent := by
  obtain ⟨-, generation, -, rfl⟩ := Draft.build_eq_ok_iff.mp built
  exact ⟨rfl, rfl, rfl⟩

/-- A created event has the creator of its node, the last event of the node as self-parent, and the
other-parent that was asked for. -/
theorem descent_of_createEvent {clock : Nat → Timestamp} {event : Event} {after : Node}
    (created : node.createEvent clock otherParent transactions = .ok event after) :
    event.creator = node.creator ∧ selfParent event = node.lastEvent ∧
      DagEvent.otherParent event = otherParent := by
  rcases node.createWithin_cases otherParent transactions _ with
    ⟨made, now, -, built, -, succeeded⟩ | ⟨error, failed⟩
  · cases succeeded.symm.trans created
    exact descent_of_build built
  · cases failed.symm.trans created

/-- A node whose first draft is insertable creates the event that it describes. -/
theorem createEvent_of_insertable {clock : Nat → Timestamp} {event : Event}
    (built : (node.draft otherParent transactions).build (clock 0) = .ok event)
    (insertable : node.replica.classify event = .insertable) :
    node.createEvent clock otherParent transactions = .ok event (node.extend event) := by
  have first := attempt_of_insertable built insertable
  exact show createWithin otherParent transactions (clock 0 :: _) node = _ by
    rw [createWithin, first]

theorem expireRetaining_cases (node : Node) (retained : Generation) :
    (node.expireRetaining retained).2 = node ∨
    ∃ target stats, node.replica.watermark < target ∧ (node.expireRetaining retained).2 =
      { node with replica := (node.replica.expireTo target).2, stats } := by
  unfold expireRetaining
  split
  · exact .inl rfl
  · dsimp only
    split
    · exact .inl rfl
    · exact .inr ⟨_, _, Int64.not_le.mp ‹_›, rfl⟩

end Node
end Hashgraph
