import Hashgraph.Exchange.Fault
import Hashgraph.Graph.Shadow

/-! The shadow graph: all shadows by hash. A child is recorded at a parent when the child comes in
and the parent is held, and it is struck off when the child leaves. -/

namespace Hashgraph

structure ShadowGraph (ε : Type) where
  shadows : EventHashMap (Shadow ε) := ∅

namespace ShadowGraph

variable {ε : Type}

def empty : ShadowGraph ε := {}

instance : EmptyCollection (ShadowGraph ε) := ⟨empty⟩

instance : Inhabited (ShadowGraph ε) := ⟨empty⟩

@[ext] theorem ext {g g' : ShadowGraph ε} (same : ∀ hash : EventHash, g.shadows[hash]? = g'.shadows[hash]?) :
    g = g' := by
  obtain ⟨shadows⟩ := g
  obtain ⟨shadows'⟩ := g'
  exact congrArg ShadowGraph.mk (Std.ExtTreeMap.ext_getElem? same)

def get? (g : ShadowGraph ε) (hash : EventHash) : Option (Shadow ε) := g.shadows[hash]?

def contains (g : ShadowGraph ε) (hash : EventHash) : Bool := g.shadows.contains hash

instance : Membership EventHash (ShadowGraph ε) := ⟨fun g hash => g.contains hash = true⟩

instance (hash : EventHash) (g : ShadowGraph ε) : Decidable (hash ∈ g) :=
  inferInstanceAs (Decidable (g.contains hash = true))

def size (g : ShadowGraph ε) : Nat := g.shadows.size

def isEmpty (g : ShadowGraph ε) : Bool := g.shadows.isEmpty

def hashes (g : ShadowGraph ε) : List EventHash := g.shadows.keys

/-- All shadows, in the order of their hashes. -/
def toList (g : ShadowGraph ε) : List (Shadow ε) := g.shadows.toList.map Prod.snd

theorem mem_iff_isSome {g : ShadowGraph ε} {hash : EventHash} :
    hash ∈ g ↔ (g.get? hash).isSome := by
  change g.shadows.contains hash = true ↔ _
  rw [Std.ExtTreeMap.contains_eq_isSome_getElem?]
  rfl

theorem mem_hashes {g : ShadowGraph ε} {hash : EventHash} : hash ∈ g.hashes ↔ hash ∈ g := by
  rw [hashes, Std.ExtTreeMap.mem_keys, Std.ExtTreeMap.mem_iff_contains]
  rfl

/-- Changes a parent, if there is one and the graph holds it. -/
def adjust (g : ShadowGraph ε) (parent : Option Descriptor) (change : Shadow ε → Shadow ε) :
    ShadowGraph ε :=
  match parent with
  | none => g
  | some parent => ⟨g.shadows.modify parent.hash change⟩

variable [DagEvent ε]

def selfParent? (g : ShadowGraph ε) (hash : EventHash) : Option (Shadow ε) := do
  let shadow ← g.get? hash
  let parent ← shadow.selfParent
  g.get? parent.hash

def otherParent? (g : ShadowGraph ε) (hash : EventHash) : Option (Shadow ε) := do
  let shadow ← g.get? hash
  let parent ← shadow.otherParent
  g.get? parent.hash

/-- Takes in an event that is not held yet and records it as a child of its held parents. A parent
that comes in after its child never learns of it. -/
def insert (g : ShadowGraph ε) (event : ε) : Except Fault (ShadowGraph ε) :=
  let hash := DagEvent.hash event
  if hash ∈ g then .error (.duplicateShadow hash)
  else
    let linked := (g.adjust (DagEvent.selfParent event) (Shadow.addSelfChild hash)).adjust
      (DagEvent.otherParent event) (Shadow.addOtherChild hash)
    .ok ⟨linked.shadows.insert hash { event }⟩

/-- Takes a shadow out of the graph, with the children it had, and strikes it off at its held
parents. -/
def remove (g : ShadowGraph ε) (hash : EventHash) : Option (Shadow ε) × ShadowGraph ε :=
  match g.get? hash with
  | none => (none, g)
  | some shadow =>
    let rest : ShadowGraph ε := ⟨g.shadows.erase hash⟩
    (some shadow, (rest.adjust shadow.selfParent (Shadow.removeSelfChild hash)).adjust
      shadow.otherParent (Shadow.removeOtherChild hash))

end ShadowGraph
end Hashgraph
