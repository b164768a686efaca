import Hashgraph.Event.Draft
import Hashgraph.Random.Uniform
import Hashgraph.Replica.Intake

/-! Synthetic histories: a number of creators take turns at random, each event naming the latest
event of its creator and that of a random other creator. -/

namespace Hashgraph.History

/-- Who creates an event, and whose latest event is its other-parent. -/
structure Choice (creators : Nat) where
  creator : Fin creators
  other : Option (Fin creators)

structure Progress (creators : Nat) where
  latest : Vector (Option Event) creators := Vector.replicate creators none
  events : List Event := []

variable {creators : Nat}

def draft (progress : Progress creators) (choice : Choice creators) : Draft :=
  { creator := CreatorId.ofIndex (UInt64.ofNat choice.creator.val)
    selfParent := progress.latest[choice.creator].map DagEvent.descriptor
    otherParent := choice.other.bind fun other =>
      progress.latest[other].map DagEvent.descriptor }

/-- Adds one event; a draft that cannot be built is passed over. -/
def extend (progress : Progress creators) (time : Nat) (choice : Choice creators) :
    Progress creators :=
  match (draft progress choice).build (Int64.ofNat time) with
  | .error _ => progress
  | .ok event =>
    { latest := progress.latest.set choice.creator (some event)
      events := progress.events ++ [event] }

def play (progress : Progress creators) (time : Nat) : List (Choice creators) → Progress creators
  | [] => progress
  | choice :: rest => play (extend progress time choice) (time + 1) rest

def ofChoices (choices : List (Choice creators)) : List Event := (play {} 0 choices).events

/-- Draws a creator and, if there are several, another one. -/
def drawChoice : (creators : Nat) → Random.Generator → Choice (creators + 1) × Random.Generator
  | 0, generator =>
    let (creator, generator) := generator.choose 0
    (⟨creator, none⟩, generator)
  | others + 1, generator =>
    let (creator, generator) := generator.choose (others + 1)
    let (offset, generator) := generator.choose others
    (⟨creator, some (creator + offset.succ)⟩, generator)

def drawChoices (creators : Nat) : Nat → Random.Generator → List (Choice (creators + 1))
  | 0, _ => []
  | count + 1, generator =>
    let (choice, generator) := drawChoice creators generator
    choice :: drawChoices creators count generator

/-- A random history; there is always at least one creator. -/
def random (creators events : Nat) (seed : UInt64) : List Event :=
  ofChoices (drawChoices (creators - 1) events (Random.Generator.ofSeed seed))

def populate (events : List Event) : Replica Event := (Replica.empty.addEvents events).2

end Hashgraph.History
