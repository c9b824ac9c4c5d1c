import Spreadsheet.Address.Rectangle

/-! Insertion and deletion of rows or columns, and where positions end up. -/
namespace Spreadsheet

inductive Axis where
  | row
  | col
deriving DecidableEq, Repr

namespace Axis

def name : Axis → String
  | .row => "row"
  | .col => "col"

def ofName? (s : String) : Option Axis :=
  if s = "row" then some .row else if s = "col" then some .col else none

def ofGiven? : Datum → Option Axis
  | .text s => ofName? s
  | _ => none

def misnamed (given : Datum) : String := "axis must be 'row' or 'col', got " ++ given.literal

def position : Axis → Address → Int
  | .row, a => a.row
  | .col, a => a.col

def withPosition (axis : Axis) (a : Address) (pos : Int) : Address :=
  match axis with
  | .row => { a with row := pos }
  | .col => { a with col := pos }

end Axis

/-- Inserts `count` lines before `index`, or deletes `-count` lines from `index` on. -/
structure LineEdit where
  axis : Axis
  index : Int
  count : Int
deriving DecidableEq, Repr

namespace LineEdit

/-- The first line after the deleted ones. -/
def stop (e : LineEdit) : Int := e.index - e.count

/-- Where a line ends up; a deleted one nowhere. -/
def movePosition? (e : LineEdit) (pos : Int) : Option Int :=
  if pos < e.index then some pos
  else if e.count < 0 ∧ pos < e.stop then none
  else some (pos + e.count)

/-- Where a span of lines ends up: an insertion moves its ends, a deletion leaves what survives of
it. -/
def moveSpan? (e : LineEdit) (low high : Int) : Option (Int × Int) :=
  if 0 < e.count then
    some (if low < e.index then low else low + e.count,
      if high < e.index then high else high + e.count)
  else if e.index ≤ low ∧ high < e.stop then none
  else
    some (if low < e.index then low else if low < e.stop then e.index else low + e.count,
      if high < e.index then high else if high < e.stop then e.index - 1 else high + e.count)

end LineEdit

/-- Where a cell ends up; one in a deleted line nowhere. -/
def Address.shift? (e : LineEdit) (a : Address) : Option Address :=
  (e.movePosition? (e.axis.position a)).map (e.axis.withPosition a)

/-- Where a rectangle ends up; one in deleted lines nowhere. -/
def Rectangle.shift? (e : LineEdit) (r : Rectangle) : Option Rectangle :=
  (e.moveSpan? (e.axis.position r.topLeft) (e.axis.position r.bottomRight)).map fun (low, high) =>
    ⟨e.axis.withPosition r.topLeft low, e.axis.withPosition r.bottomRight high⟩

end Spreadsheet
