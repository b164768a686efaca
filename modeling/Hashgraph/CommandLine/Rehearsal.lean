import Hashgraph.CommandLine.Execution
import Hashgraph.Files.Tree

/-! Rehearsals: requests carried out in a tree of files while the clock stands still, so that a run
is a function of the tree. -/

namespace Hashgraph.CommandLine

def contentIn (tree : Files.Tree) (path : String) : Option Bytes :=
  match Files.Path.ofText path >>= tree.find with
  | .ok (.file content) => some content
  | .ok .sink | .ok .output => some []
  | .ok .directory | .ok .full | .error _ => none

def Surroundings.inTree (milliseconds : Nat) : Surroundings (StateM Files.Tree) where
  holds path := return (Files.Path.ofText path >>= (← get).find).isOk
  read path := return contentIn (← get) path
  write path text := do
    let tree ← get
    match Files.Path.ofText path >>= fun path => tree.write path (Bytes.ofText text) with
    | .error fault => return .error fault
    | .ok tree =>
      set tree
      return .ok ()
  now := return Int64.ofNat milliseconds
  milliseconds := return milliseconds

/-- What a request comes to, and the tree that it leaves. What a request writes to an output stands
before what it prints. -/
def Request.rehearse (request : Request) (seed : Option String) (milliseconds : Nat)
    (tree : Files.Tree) : Outcome × Files.Tree :=
  let (outcome, tree) := (request.execute (.inTree milliseconds) seed).run tree
  let shown := (String.fromUTF8? ⟨tree.shown.toArray⟩).getD ""
  ({ outcome with output := shown ++ outcome.output }, tree)

end Hashgraph.CommandLine
