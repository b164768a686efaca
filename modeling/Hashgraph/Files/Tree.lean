import Hashgraph.Bytes.LittleEndian
import Hashgraph.Files.Path

/-! Trees of files, with looking up and writing by path. Both walk the directories of the path one
by one, so a step back up has to follow a step that succeeds. -/

namespace Hashgraph.Files

/-- What a path can lead to. A sink reads as empty and drops what is written to it, what is full has
no room for it, and an output shows it. -/
inductive Entry where
  | directory
  | file (content : Bytes)
  | sink
  | full
  | output
deriving DecidableEq, Repr

abbrev Location := List String

/-- Entries by location, of which the first counts, the directory that paths start in unless they
start at the root, and what was written to outputs. -/
structure Tree where
  entries : List (Location × Entry)
  current : Location
  shown : Bytes := []
deriving DecidableEq, Repr

namespace Tree

/-- What stands at a location. On the way to an entry, or to the current directory, stand
directories. -/
def at? (tree : Tree) (location : Location) : Option Entry :=
  match tree.entries.lookup location with
  | some entry => some entry
  | none =>
    if location.isPrefixOf tree.current ||
        tree.entries.any fun (other, _) => location.isPrefixOf other then
      some .directory
    else none

def put (tree : Tree) (location : Location) (entry : Entry) : Tree :=
  { tree with entries := (location, entry) :: tree.entries }

def maxNameSize : Nat := 255

def child (location : Location) (name : String) : Except Fault Location :=
  if maxNameSize < name.utf8ByteSize then .error .nameTooLong else .ok (location ++ [name])

def enter (tree : Tree) (location : Location) : Step → Except Fault Location
  | .stay => .ok location
  | .up => .ok location.dropLast
  | .down name => do
    let location ← child location name
    match tree.at? location with
    | none => .error .missing
    | some .directory => .ok location
    | some _ => .error .notDirectory

def walk (tree : Tree) (path : Path) : Except Fault Location :=
  path.parents.foldlM tree.enter (if path.fromRoot then [] else tree.current)

def find (tree : Tree) (path : Path) : Except Fault Entry := do
  let location ← tree.walk path
  match path.last with
  | .stay | .up => .ok .directory
  | .down name =>
    match tree.at? (← child location name) with
    | none => .error .missing
    | some .directory => .ok .directory
    | some entry => if path.namesDirectory then .error .notDirectory else .ok entry

/-- Writes a file, new or in the place of an older one. A path that names a directory is refused
before anything is looked up under its last name. -/
def write (tree : Tree) (path : Path) (content : Bytes) : Except Fault Tree := do
  let location ← tree.walk path
  match path.last with
  | .stay | .up => .error .isDirectory
  | .down name =>
    if path.namesDirectory then .error .isDirectory
    else
      let location ← child location name
      match tree.at? location with
      | some .directory => .error .isDirectory
      | some .sink => .ok tree
      | some .full => .error .noSpace
      | some .output => .ok { tree with shown := tree.shown ++ content }
      | some (.file _) | none => .ok (tree.put location (.file content))

end Tree
end Hashgraph.Files
