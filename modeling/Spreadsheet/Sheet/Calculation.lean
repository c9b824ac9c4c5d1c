import Spreadsheet.Formula.Evaluation
import Spreadsheet.Graph.Schedule
import Spreadsheet.Sheet.Basic
import Spreadsheet.Sheet.Diagnostic

/-! Calculation of cells. A pass goes through its cells in an order in which each comes after the cells
it reads, so that every value is calculated once. It breaks off at a formula that has no value because
a number in it has no text. -/
namespace Spreadsheet.Sheet

/-- What formulas see of a cell. -/
def seen (s : Sheet) (a : Address) : Option Value := s.cells[a]?.bind fun c => c.result.seen?

def scope (s : Sheet) : Formula.Scope := ⟨s.seen, s.bounds, s.precision⟩

/-- The value of a cell over the present values of the others. -/
def valueOf (s : Sheet) (c : Cell) : Except Number.PrecisionFault Value :=
  match c.kind with
  | .constant => .ok (.scalar (Scalar.ofText c.content))
  | .formula f => f.evaluate s.scope
  | .rejected reason => .ok (.error reason)

def calculate (s : Sheet) (a : Address) : Except Number.PrecisionFault Sheet :=
  match s.cells[a]? with
  | none => .ok s
  | some c => (s.valueOf c).map fun v =>
    { s with cells := s.cells.insert a { c with result := .known v } }

/-- Changes what is known of the value of a cell. -/
def reconsider (f : Cell.Result → Cell.Result) (s : Sheet) (a : Address) : Sheet :=
  { s with cells := s.cells.modify a fun c => { c with result := f c.result } }

def postpone : Sheet → Address → Sheet := reconsider fun r => .pending r.value?

def breakOff : Sheet → Address → Sheet := reconsider fun r => .broken r.value?

/-- A sheet whose calculation broke off, and why. -/
structure Broken where
  sheet : Sheet
  fault : Number.PrecisionFault

/-- Whether a cell shows an error. -/
def showsError (s : Sheet) (a : Address) : Bool := (s.contents a).any Value.isError

/-- How far a pass has come: the sheet, and how many errors the cells calculated so far have got. -/
structure Pass where
  sheet : Sheet
  errors : Nat

/-- Goes on with cells one after the other. At a cell without a value that breaks off, and the cells
after it are left to wait. -/
def Pass.goThrough (p : Pass) : List Address → Except Broken Pass
  | [] => .ok p
  | a :: rest =>
    match p.sheet.calculate a with
    | .ok s => goThrough ⟨s, if s.showsError a then p.errors + 1 else p.errors⟩ rest
    | .error fault => .error ⟨rest.foldl postpone (p.sheet.breakOff a), fault⟩

/-- Calculates the occupied ones of some cells. -/
def pass (s : Sheet) (cells : AddressSet) : Except Broken Pass :=
  let occupied := cells.filter fun a => s.cells.contains a
  let order := (s.graph.schedule occupied).order
  (Pass.goThrough ⟨s, 0⟩ order).map fun p => { p with sheet.recalculated := order }

/-- What happened, told of a pass that has come to its end. -/
def Pass.event (trigger : Option Address) (p : Pass) : Event :=
  .recalculated trigger p.sheet.recalculated.length p.errors

/-- The sheet that a pass leaves. -/
def recalculate (s : Sheet) (cells : AddressSet) : Except Broken Sheet := (s.pass cells).map Pass.sheet

/-- The cells to calculate after changes of some cells: these, and all that read them. -/
def affected (s : Sheet) (changed : AddressSet) : AddressSet :=
  changed ∪ s.graph.readersThrough changed

end Spreadsheet.Sheet
