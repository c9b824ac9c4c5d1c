import Spreadsheet.Address.Rectangle

/-! Bounds of a sheet. -/
namespace Spreadsheet

/-- How many rows and columns there are, where there is a limit. -/
structure Bounds where
  maxRows : Option Int
  maxCols : Option Int
deriving DecidableEq

namespace Bounds

def contains (b : Bounds) (a : Address) : Bool :=
  Address.isBelow b.maxRows a.row && Address.isBelow b.maxCols a.col

/-- The last index below a limit, at most `index`. -/
def lastBelow (limit : Option Int) (index : Int) : Int :=
  match limit with
  | none => index
  | some n => min index (n - 1)

end Bounds

def Rectangle.clip? (r : Rectangle) (b : Bounds) : Option Rectangle :=
  if b.contains r.topLeft then
    some ⟨r.topLeft, ⟨Bounds.lastBelow b.maxRows r.bottomRight.row,
      Bounds.lastBelow b.maxCols r.bottomRight.col⟩⟩
  else none

end Spreadsheet
