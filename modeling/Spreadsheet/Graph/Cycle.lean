import Spreadsheet.Graph.Basic

/-! Cycles that new edges would close. -/
namespace Spreadsheet.Graph

/-- A cell and the cells on the way to it, the nearest one first. -/
structure Trail where
  cell : Address
  before : List Address

/-- The cells of a trail in the order of the way. -/
def Trail.path (t : Trail) : List Address := (t.cell :: t.before).reverse

def Trail.extend (t : Trail) (next : Address) : Trail := ⟨next, t.cell :: t.before⟩

/-- Looks breadth first for a trail to a cell that reads `goal`: along the trails in `front`, then
those in `back`, which are in reverse order, then from each of `roots` in turn. The edges of a cell
are followed once and then dropped. -/
def seek (goal : Address) (edges : AddressMap AddressSet) :
    (front back : List Trail) → (roots : List Address) → Option Trail
  | trail :: front, back, roots =>
    if h : trail.cell ∈ edges then
      let next := edges[trail.cell]
      if goal ∈ next then some trail
      else
        seek goal (edges.erase trail.cell) front
          (next.foldl (fun back cell => trail.extend cell :: back) back) roots
    else seek goal edges front back roots
  | [], trail :: back, roots => seek goal edges (trail :: back).reverse [] roots
  | [], [], root :: roots => seek goal edges [⟨root, []⟩] [] roots
  | [], [], [] => none
termination_by front back roots =>
  (edges.size, front.length + back.length + 2 * roots.length, if front.isEmpty then 1 else 0)
decreasing_by
  · exact .left _ _ (size_erase_lt_of_mem h)
  · exact .right _ (.left _ _ (by simp))
  · simp only [List.length_reverse, List.length_nil, Nat.add_zero, Nat.zero_add]
    exact .right _ (.right _ (by simp))
  · exact .right _ (.left _ _ (by simp; omega))

/-- The way from `a` back to `a` that edges from `a` to `targets` would close. -/
def cyclePath? (g : Graph) (a : Address) (targets : AddressSet) : Option (List Address) :=
  if a ∈ targets then some [a, a]
  else (seek a g.reads [] [] targets.toList).map fun trail => a :: (trail.path ++ [a])

def wouldCycle (g : Graph) (a : Address) (targets : AddressSet) : Bool :=
  (g.cyclePath? a targets).isSome

end Spreadsheet.Graph
