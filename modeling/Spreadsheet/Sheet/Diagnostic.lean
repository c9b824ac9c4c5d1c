import Spreadsheet.Address.LineEdit
import Spreadsheet.Formula.ParseError
import Spreadsheet.Log.Entry

/-! Why edits are not accepted as entered, and what happens to a sheet, as the event log tells it. -/
namespace Spreadsheet

inductive Rejection where
  | malformed (error : Formula.ParseError)
  /-- A range has more cells than `limit`. -/
  | oversized (first last : Address) (limit : Int)
  | circular (path : List Address)

namespace Rejection

def kind : Rejection → ErrorKind
  | .malformed _ => .malformed
  | .oversized _ _ _ => .invalidRange
  | .circular _ => .cycle

/-- The numbers in a message that may be too long to write. The corners of a range never are, since they
were read from a text, and neither are the cells of a circuit, which formulas name. -/
def numbers : Rejection → List Int
  | .oversized _ _ limit => [limit]
  | .malformed _ | .circular _ => []

/-- Whether a refusal in a cell can be told of: the numbers for that are short enough to write. -/
def isTellable (a : Address) (r : Rejection) : Bool := a.isWritable && r.numbers.all Number.isWritable

/-- The message of a refusal that can be told of. -/
def message : Rejection → String
  | .malformed error => error.message
  | .oversized first last limit => s!"Range {first}:{last} spans more than {limit} cells"
  | .circular _ => "Formula would create a circular reference"

def position : Rejection → Option Nat
  | .malformed error => error.position
  | _ => none

def path : Rejection → List Address
  | .circular path => path
  | _ => []

def topic : Rejection → Log.Topic
  | .malformed _ => .malformedFormula
  | .oversized _ _ _ => .rangeRejected
  | .circular _ => .cycleRejected

def code : Rejection → String
  | .malformed _ => "formula_syntax"
  | .oversized _ _ _ => "range_too_large"
  | .circular _ => "formula_cycle"

def details : Rejection → Datum.Fields
  | .malformed error =>
    [("position", (error.position.map fun n => .int n).getD .null),
      ("expected", .list (error.expected.map .text))]
  | .oversized _ _ _ => []
  | .circular path => [("path", .list (path.map fun a => .text a.text))]

end Rejection

structure Diagnostic where
  address : Address
  rejection : Rejection

def Diagnostic.text (d : Diagnostic) : String :=
  let line := s!"{d.address}: {d.rejection.kind.name}: {d.rejection.message}"
  match d.rejection.path with
  | [] => line
  | path => line ++ " (" ++ " -> ".intercalate (path.map Address.text) ++ ")"

/-! ## Events -/

inductive Event where
  | cellSet (address : Address) (isFormula : Bool)
  | cellCleared (address : Address)
  | rejected (diagnostic : Diagnostic)
  /-- A calculation, which an edit of one cell may have caused. -/
  | recalculated (trigger : Option Address) (cells errors : Nat)
  | loaded (cells refused : Nat)
  | restructured (edit : LineEdit) (cells : Nat)

namespace Event

def level : Event → Log.Level
  | .rejected _ => .warning
  | _ => .info

def topic : Event → Log.Topic
  | .cellSet _ _ => .cellSet
  | .cellCleared _ => .cellCleared
  | .rejected d => d.rejection.topic
  | .recalculated _ _ _ => .recalculation
  | .loaded _ _ => .bulkLoad
  | .restructured _ _ => .structureChanged

def message : Event → String
  | .cellSet a _ => s!"Set {a}"
  | .cellCleared a => s!"Cleared {a}"
  | .rejected d => d.rejection.message
  | .recalculated _ cells _ => s!"Recalculated {cells} cell(s)"
  | .loaded cells _ => s!"Loaded {cells} cell(s)"
  | .restructured e _ =>
    let verb := if 0 < e.count then "Inserted" else "Deleted"
    s!"{verb} {e.count.natAbs} {e.axis.name}(s) at {e.index}"

def context : Event → Datum.Fields
  | .cellSet a isFormula => [("address", .text a.text), ("formula", .bool isFormula)]
  | .cellCleared a => [("address", .text a.text)]
  | .rejected d => ("address", .text d.address.text) :: d.rejection.details
  | .recalculated trigger cells errors =>
    [("trigger", (trigger.map fun a => .text a.text).getD .null), ("cells", .int cells),
      ("errors", .int errors)]
  | .loaded cells refused => [("cells", .int cells), ("rejected", .int refused)]
  | .restructured e cells =>
    [("axis", .text e.axis.name), ("index", .int e.index), ("count", .int e.count),
      ("cells", .int cells)]

def code : Event → Option String
  | .rejected d => some d.rejection.code
  | _ => none

/-- How long a calculation took, where that was measured. -/
def timing (duration : Option Datum) : Event → Datum.Fields
  | .recalculated _ _ _ => (duration.map fun d => [("duration_ms", d)]).getD []
  | _ => []

def entry (duration : Option Datum) (e : Event) : Log.Entry where
  level := e.level
  topic := e.topic
  message := e.message
  context := e.context ++ e.timing duration
  code := e.code

end Event
end Spreadsheet
