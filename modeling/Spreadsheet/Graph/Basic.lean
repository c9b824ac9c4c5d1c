import Spreadsheet.Address.Collection

/-! Which cells read which. Every edge is kept in both directions, so that the cells a cell reads and
the cells that read it are found alike. -/
namespace Spreadsheet

/-- Edges from cells to the cells they read. Neither map holds an empty set. -/
structure Graph where
  reads : AddressMap AddressSet
  readBy : AddressMap AddressSet

namespace Graph

def empty : Graph := ⟨∅, ∅⟩

instance : EmptyCollection Graph := ⟨empty⟩

def readsOf (g : Graph) (a : Address) : AddressSet := g.reads.getD a ∅

def readersOf (g : Graph) (a : Address) : AddressSet := g.readBy.getD a ∅

def contains (g : Graph) (a : Address) : Bool := g.reads.contains a || g.readBy.contains a

/-- All edges in ascending order, the reading cell first. -/
def edges (g : Graph) : List (Address × Address) :=
  g.reads.toList.flatMap fun (a, targets) => targets.toList.map fun b => (a, b)

def size (g : Graph) : Nat := g.reads.foldl (fun count _ targets => count + targets.size) 0

/-! ## Changes -/

def addReader (reader : Address) (readBy : AddressMap AddressSet) (target : Address) :
    AddressMap AddressSet :=
  readBy.alter target fun readers => some ((readers.getD ∅).insert reader)

def dropReader (reader : Address) (readBy : AddressMap AddressSet) (target : Address) :
    AddressMap AddressSet :=
  readBy.alter target fun readers =>
    let rest := (readers.getD ∅).erase reader
    if rest.isEmpty then none else some rest

/-- Replaces the edges from a cell by edges to `targets`. -/
def setReads (g : Graph) (a : Address) (targets : AddressSet) : Graph :=
  let old := g.readsOf a
  let kept := (old \ targets).toList.foldl (dropReader a) g.readBy
  ⟨if targets.isEmpty then g.reads.erase a else g.reads.insert a targets,
    (targets \ old).toList.foldl (addReader a) kept⟩

/-- Drops the edges from a cell. Those to it stay. -/
def clearReads (g : Graph) (a : Address) : Graph := g.setReads a ∅

/-! ## Transitive readers -/

/-- Adds to `found` whatever can be reached from the pending cells along one or more edges. The edges
of a cell are followed once and then dropped. -/
def closure (edges : AddressMap AddressSet) (found : AddressSet) : List Address → AddressSet
  | [] => found
  | a :: pending =>
    if h : a ∈ edges then
      closure (edges.erase a) (found ∪ edges[a]) (edges[a].toList ++ pending)
    else closure edges found pending
termination_by pending => (edges.size, pending.length)
decreasing_by
  · exact .left _ _ (size_erase_lt_of_mem h)
  · exact .right _ (by simp)

/-- The cells that read one of `cells`, directly or through others. -/
def readersThrough (g : Graph) (cells : AddressSet) : AddressSet := closure g.readBy ∅ cells.toList

/-- The other cells that read a cell, directly or through others. -/
def dependents (g : Graph) (a : Address) : AddressSet := (g.readersThrough {a}).erase a

end Graph
end Spreadsheet
