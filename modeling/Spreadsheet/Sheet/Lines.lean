import Spreadsheet.Formula.Shift
import Spreadsheet.Sheet.Edit

/-! Insertion and deletion of rows and columns. The cells move, their formulas follow them, and all of
them are entered again into an empty sheet with the new bounds. -/
namespace Spreadsheet

/-- How many lines there are after an edit, at least one. -/
def LineEdit.resize (e : LineEdit) (lines : Positive) : Positive :=
  ⟨max 1 (lines.val + e.count), Int.le_max_left 1 _⟩

def Limits.edit (e : LineEdit) (l : Limits) : Limits :=
  match e.axis with
  | .row => { l with rows := e.resize l.rows }
  | .col => { l with cols := e.resize l.cols }

/-- Settings in which a bound is replaced by the one that limits have. -/
def Limits.adopt (axis : Axis) (l settings : Limits) : Limits :=
  match axis with
  | .row => { settings with rows := l.rows }
  | .col => { settings with cols := l.cols }

namespace Sheet

def lineCount (s : Sheet) : Axis → Int
  | .row => s.limits.rows
  | .col => s.limits.cols

/-- A cell and its content after an edit, unless the cell is deleted. -/
def moveContent (e : LineEdit) (a : Address) (content : String) :
    Except Number.DigitLimit (Option (Address × String)) :=
  match a.shift? e with
  | none => .ok none
  | some b => (Formula.shiftText e content).map fun shifted => some (b, shifted)

def movedContents (s : Sheet) (e : LineEdit) : Except Number.DigitLimit (AddressMap String) :=
  s.cells.toList.foldlM (fun moved (a, c) => do
    match ← moveContent e a c.content with
    | none => return moved
    | some (b, content) => return moved.insert b content) ∅

def restructure (s : Sheet) (e : LineEdit) : Edited (Except Fault (List Diagnostic)) :=
  match s.movedContents e with
  | .error limit => s.refuse (.tooLong limit)
  | .ok contents =>
    let limits := s.limits.edit e
    let emptied : Sheet :=
      { s with limits, cells := ∅, graph := ∅, settings := limits.adopt e.axis s.settings }
    let entered := emptied.enterAll contents
    match entered.answer with
    | .ok found =>
      if Number.isWritable e.index && Number.isWritable e.count then
        ⟨entered.sheet, entered.events ++ [.restructured e contents.size], .ok found⟩
      else ⟨entered.sheet, entered.events, .error .untold⟩
    | .error fault => ⟨entered.sheet, entered.events, .error fault⟩

/-- Inserts empty lines before a line, or after the last one. -/
def insertLines (s : Sheet) (axis : Axis) (index count : Int) :
    Edited (Except Fault (List Diagnostic)) :=
  if index < 0 ∨ s.lineCount axis < index then
    s.refuse (.noPlace axis index (s.lineCount axis))
  else if count < 1 then s.refuse .countBelowOne
  else if axis = .col ∧ mostColumns < s.lineCount axis + count then s.refuse .tooManyColumns
  else s.restructure ⟨axis, index, count⟩

/-- Deletes lines from a line on, at most up to the last one. -/
def deleteLines (s : Sheet) (axis : Axis) (index count : Int) :
    Edited (Except Fault (List Diagnostic)) :=
  if index < 0 ∨ s.lineCount axis ≤ index then
    s.refuse (.noLine axis index (s.lineCount axis))
  else if count < 1 then s.refuse .countBelowOne
  else s.restructure ⟨axis, index, -min count (s.lineCount axis - index)⟩

end Sheet
end Spreadsheet
