import Spreadsheet.Address.Bounds
import Spreadsheet.Address.LineEdit
import Spreadsheet.Formula.Parser
import Spreadsheet.Graph.Basic
import Spreadsheet.Settings.Basic

/-! Sheets: the occupied cells, and which cells read which. -/
namespace Spreadsheet

/-- What the content of a cell is taken for. -/
inductive Cell.Kind where
  | constant
  | formula (tree : Formula)
  /-- A formula that was refused when it was entered. It shows an error until it is edited. -/
  | rejected (reason : ErrorKind)

/-- What is known of the value of a cell. -/
inductive Cell.Result where
  /-- The cell waits for a value. It may have one from before. -/
  | pending (last : Option Value)
  /-- The calculation of the cell broke off. -/
  | broken (last : Option Value)
  | known (value : Value)

namespace Cell.Result

def value? : Result → Option Value
  | .pending last | .broken last => last
  | .known v => some v

/-- What formulas see. A calculation that has not ended counts as part of a cycle. -/
def seen? : Result → Option Value
  | .broken _ => some (.error .cycle)
  | r => r.value?

end Cell.Result

/-- An occupied cell: its content as entered, and what came of calculating it. -/
structure Cell where
  content : String
  kind : Cell.Kind
  result : Cell.Result

namespace Cell

inductive State where
  | dirty
  | evaluating
  | clean
  | errored
deriving DecidableEq, Repr

def State.name : State → String
  | .dirty => "dirty"
  | .evaluating => "evaluating"
  | .clean => "clean"
  | .errored => "errored"

/-- A cell waits for its value, was left in the middle of a calculation, shows a value, or shows an
error. -/
def state (c : Cell) : State :=
  match c.result with
  | .pending _ => .dirty
  | .broken _ => .evaluating
  | .known v => if v.isError then .errored else .clean

def value? (c : Cell) : Option Value := c.result.value?

def isFormula (c : Cell) : Bool := Formula.isFormulaText c.content

def formula? (c : Cell) : Option Formula :=
  match c.kind with
  | .formula f => some f
  | _ => none

def rejection? (c : Cell) : Option ErrorKind :=
  match c.kind with
  | .rejected reason => some reason
  | _ => none

/-- Constants show their content, formulas their result. -/
def display (precision : Int) (c : Cell) : Except Number.PrecisionFault String :=
  if c.isFormula then Value.display precision c.value? else .ok c.content

end Cell

structure Sheet where
  limits : Limits
  cells : AddressMap Cell
  graph : Graph
  /-- The cells of the last calculation in its order. -/
  recalculated : List Address
  /-- The limits that the sheet gives out as its settings. -/
  settings : Limits

namespace Sheet

def new (limits : Limits) : Sheet := ⟨limits, ∅, ∅, [], limits⟩

/-- An empty sheet with the given settings over the defaults. -/
def ofSettings? (given : Settings) : Except Settings.Fault Sheet :=
  (Settings.limits (Yaml.Value.overlay Settings.defaults given)).map new

def bounds (s : Sheet) : Bounds := ⟨some s.limits.rows, some s.limits.cols⟩

def precision (s : Sheet) : Int := s.limits.precision

inductive Fault where
  /-- What was to be set as content is no text. -/
  | noText (found : Datum)
  /-- Among contents to be loaded is one that is no text. -/
  | unloadable (found : Datum)
  | address (fault : Address.Fault)
  | outside (address : Address) (rows cols : Int)
  | direction (given : Datum)
  /-- Lines are inserted before a line or at the end. -/
  | noPlace (axis : Axis) (index last : Int)
  | noLine (axis : Axis) (index count : Int)
  | countBelowOne
  | tooManyColumns
  | tooLong (limit : Number.DigitLimit)
  /-- A number has no text of the precision that the settings ask for. -/
  | precision (fault : Number.PrecisionFault)
  /-- A formula was refused, and a number is too long to tell of it. -/
  | halted
  /-- All is done, but the number of a line is too long to tell of it. -/
  | untold

/-- The most columns that insertions can make. Their names have up to three letters. -/
def mostColumns : Int := 26 + 26 * 26 + 26 * 26 * 26

def indexName : Axis → String
  | .row => "row_idx"
  | .col => "col_idx"

/-- A message with numbers in it, unless one of them is too long to write. -/
def messageWith (numbers : List Int) (message : String) : String :=
  if numbers.all Number.isWritable then message else Number.DigitLimit.message .writing

def Fault.message : Fault → String
  | .noText found | .unloadable found => s!"Cell content must be str, got {found.kindName}"
  | .address fault => fault.message
  | .outside a rows cols =>
    messageWith [a.row + 1, rows, cols]
      s!"Cell address {a} is outside the grid ({rows} rows x {cols} columns)"
  | .direction given => s!"direction must be up, down, left or right, got {given.literal}"
  | .noPlace axis index last =>
    messageWith [index, last] s!"{indexName axis} {index} out of range [0, {last}]"
  | .noLine axis index count =>
    messageWith [index, count] s!"{indexName axis} {index} out of range [0, {count})"
  | .countBelowOne => "count must be >= 1"
  | .tooManyColumns => s!"Grid cannot grow past {mostColumns} columns"
  | .tooLong limit => limit.message
  | .precision fault => fault.message
  | .halted | .untold => Number.DigitLimit.message .writing

def locate (s : Sheet) (given : Address.Given) : Except Fault Address :=
  match Address.ofGiven? given with
  | .error fault => .error (.address fault)
  | .ok a =>
    if s.bounds.contains a then .ok a else .error (.outside a s.limits.rows s.limits.cols)

/-! ## Reading -/

def size (s : Sheet) : Nat := s.cells.size

def contains (s : Sheet) (given : Address.Given) : Bool :=
  match Address.ofGiven? given with
  | .ok a => s.cells.contains a
  | .error _ => false

def addresses (s : Sheet) : List Address := s.cells.keys

def cell? (s : Sheet) (given : Address.Given) : Except Fault (Option Cell) :=
  (s.locate given).map fun a => s.cells[a]?

/-- The last value of a cell; an empty cell has none. -/
def contents (s : Sheet) (a : Address) : Option Value := s.cells[a]?.bind Cell.value?

def value (s : Sheet) (given : Address.Given) : Except Fault (Option Value) :=
  (s.locate given).map s.contents

def content (s : Sheet) (given : Address.Given) : Except Fault String :=
  (s.cell? given).map fun c => (c.map Cell.content).getD ""

def display (s : Sheet) (given : Address.Given) : Except Fault String := do
  match ← s.cell? given with
  | none => return ""
  | some c => (c.display s.precision).mapError .precision

/-- The occupied cells in ascending order with their contents. -/
def dump (s : Sheet) : List (Address × String) := s.cells.toList.map fun (a, c) => (a, c.content)

inductive Direction where
  | up
  | down
  | left
  | right
deriving DecidableEq, Repr

def Direction.ofGiven? : Datum → Option Direction
  | .text "up" => some .up
  | .text "down" => some .down
  | .text "left" => some .left
  | .text "right" => some .right
  | _ => none

/-- The cell beside another one, unless that lies at the edge. -/
def beside (s : Sheet) (a : Address) : Direction → Option Address
  | .up => a.above?
  | .down => a.below? s.bounds.maxRows
  | .left => a.left?
  | .right => a.right? s.bounds.maxCols

def neighbor (s : Sheet) (given : Address.Given) (direction : Datum) :
    Except Fault (Option Address) := do
  let a ← s.locate given
  match Direction.ofGiven? direction with
  | some d => return s.beside a d
  | none => .error (.direction direction)

end Sheet
end Spreadsheet
