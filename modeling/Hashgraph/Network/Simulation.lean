import Hashgraph.Config.Basic
import Hashgraph.Network.Settle

/-! Simulations. All nodes gossip in rounds: at the start of every round each node, in order,
creates its events and syncs with a random peer. Expiration ticks fall between the rounds. After
the last round the network settles. -/

namespace Hashgraph

structure Simulation where
  config : Config
  network : Network
  generators : Array Random.Generator

namespace Simulation

def makeNode (config : Config) (index : Nat) : Node :=
  { name := config.node.name ++ "-" ++ toString index
    creator := CreatorId.ofIndex (UInt64.ofNat index)
    batchLimit := config.gossip.maxSendBatch.toNat }

def ofConfig (config : Config) : Except ConfigError Simulation :=
  match config.validate with
  | .error error => .error error
  | .ok () =>
    let places := List.range config.node.nodes.toNat
    .ok
      { config
        network := ⟨(places.map (makeNode config)).toArray⟩
        generators := (places.map fun index =>
          Random.Generator.ofSeed (config.gossip.seed + UInt64.ofNat index)).toArray }

abbrev Action (α : Type) := EStateM NodeError Simulation α

def onNetwork {α : Type} (action : Network.Action α) : Action α := fun simulation =>
  match action simulation.network with
  | .ok answer network => .ok answer { simulation with network }
  | .error error network => .error error { simulation with network }

def draw {α : Type} (place : Nat) (fallback : α)
    (choose : Random.Generator → α × Random.Generator) : Action α := fun simulation =>
  match simulation.generators[place]? with
  | none => .ok fallback simulation
  | some generator =>
    let (answer, generator) := choose generator
    .ok answer
      { simulation with generators := simulation.generators.setIfInBounds place generator }

def payload (name : String) (round : Nat) : Bytes := Bytes.ofText (name ++ ":" ++ toString round)

def createOne (now : Timestamp) (place round : Nat) : Action Unit := do
  match (← get).network.nodes[place]? with
  | none => return ()
  | some node =>
    let otherParent ← draw place none node.chooseOtherParent
    let _ ← onNetwork (Network.create place (fun _ => now) otherParent [payload node.name round])
    return ()

def createMany (now : Timestamp) (place round : Nat) : Nat → Action Unit
  | 0 => return ()
  | count + 1 => do
    createOne now place round
    createMany now place round count

/-- Syncs with a random other node, if there is one. -/
def syncRandom (place : Nat) : Action Unit := do
  match (← get).network.size with
  | count + 2 =>
    let offset ← draw place 0 fun generator => generator.choose count
    let _ ← onNetwork (Network.sync place ((place + 1 + offset.val) % (count + 2)))
    return ()
  | _ => return ()

def playTurn (now : Timestamp) (round place : Nat) : Action Unit := do
  createMany now place round (← get).config.gossip.eventsPerRound.toNat
  syncRandom place

def playTurns (now : Timestamp) (round : Nat) : List Nat → Action Unit
  | [] => return ()
  | place :: rest => do
    playTurn now round place
    playTurns now round rest

/-- How many milliseconds ahead a timer can be set at most: thirty years of 365 days. -/
def timerReach : Nat := 30 * 365 * 24 * 60 * 60 * 1000

/-- The time from one expiration tick to the next. A tick farther ahead than a timer reaches comes
when the timer ends. -/
def tickInterval (expiration : ExpirationSettings) : Nat :=
  min expiration.intervalMs.toNat timerReach

/-- Whether a multiple of `interval` lies after `start` and not after `stop`. -/
def ticksWithin (interval start stop : Nat) : Bool := start / interval < stop / interval

/-- Expires at all nodes if a tick falls between two times. A second tick in the same span would
find nothing left to expire. -/
def expireBetween (start stop : Nat) : Action Unit := do
  let expiration := (← get).config.expiration
  if expiration.enabled && ticksWithin (tickInterval expiration) start stop then
    modify fun simulation =>
      { simulation with network := simulation.network.expireAll expiration.retainedGenerations }

def playRounds (now : Timestamp) (round : Nat) : Nat → Action Unit
  | 0 => return ()
  | rounds + 1 => do
    let interval := (← get).config.gossip.intervalMs.toNat
    playTurns now round (List.range (← get).network.size)
    expireBetween (round * interval) ((round + 1) * interval)
    playRounds now (round + 1) rounds

/-- The whole simulation; `now` is the time that events carry. Answers the settle passes. -/
def run (now : Timestamp) : Action Nat := do
  playRounds now 0 (← get).config.gossip.rounds.toNat
  onNetwork Network.settle

end Simulation
end Hashgraph
