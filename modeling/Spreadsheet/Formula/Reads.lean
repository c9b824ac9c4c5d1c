import Spreadsheet.Address.Bounds
import Spreadsheet.Address.Collection
import Spreadsheet.Formula.Basic

/-! The cells that a formula reads. -/
namespace Spreadsheet.Formula

def Reference.addresses (b : Bounds) : Reference → List Address
  | .cell a => if b.contains a then [a] else []
  | .range first last =>
    match (Rectangle.ofCorners first last).clip? b with
    | some r => r.cells
    | none => []

/-- The addresses within bounds that a formula names, alone or inside a range. -/
def addresses (b : Bounds) (f : Formula) : AddressSet :=
  f.references.foldl (fun found r => found.insertMany (r.addresses b)) ∅

/-- The first range of more than `limit` cells, by its corners as written. -/
def oversized? (limit : Int) (f : Formula) : Option (Address × Address) :=
  f.references.findSome? fun
    | .cell _ => none
    | .range first last =>
      if limit < (Rectangle.ofCorners first last).area then some (first, last) else none

end Spreadsheet.Formula
