import Hashgraph.Digest.Folding
import Hashgraph.Event.Identity

/-! Tables of event hashes with open addressing. A table settles the order in which the hashes of
an adopted graph are read: the order of the cells, which depends on the digests of the hashes and
on the order in which they came in. -/

namespace Hashgraph

/-- Cells, each free or with a hash. Their number is zero or a power of two. -/
structure SlotTable where
  cells : Array (Option EventHash) := #[]
  count : Nat := 0

namespace SlotTable

def digest (hash : EventHash) : UInt64 :=
  let word (start : Nat) : UInt64 :=
    UInt64.ofNat (Bytes.value ((hash.toBytes.drop start).take 8))
  Digest.foldWords (word 0) (word 8) (word 16) (word 24)

/-- How many hashes a number of cells takes before the table grows. -/
def capacity (size : Nat) : Nat := if size ≤ 8 then size - 1 else size / 8 * 7

def grownSize (size : Nat) : Nat := if size = 0 then 4 else 2 * size

/-- The cells in the order in which they are tried: windows of sixteen neighbours, each window
sixteen cells farther from the one before it than that one was. -/
def probes (size start : Nat) : List Nat :=
  (List.range (size / 16 + 1)).flatMap fun window =>
    (List.range 16).map fun step => (start + 8 * window * (window + 1) + step) % size

def place (table : SlotTable) (hash : EventHash) : SlotTable :=
  let size := table.cells.size
  match (probes size ((digest hash).toNat % size)).find? (fun cell => table.cells[cell]? = some none)
  with
  | none => table
  | some cell => ⟨table.cells.setIfInBounds cell (some hash), table.count + 1⟩

def toList (table : SlotTable) : List EventHash := table.cells.toList.filterMap fun cell => cell

/-- A table of twice the size, into which the hashes go in the order of their old cells. -/
def grow (table : SlotTable) : SlotTable :=
  table.toList.foldl place ⟨Array.replicate (grownSize table.cells.size) none, 0⟩

def insert (table : SlotTable) (hash : EventHash) : SlotTable :=
  if table.count < capacity table.cells.size then table.place hash else table.grow.place hash

def ofList (hashes : List EventHash) : SlotTable := hashes.foldl insert {}

end SlotTable
end Hashgraph
