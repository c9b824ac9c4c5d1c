import Spreadsheet.Address
import Spreadsheet.Data.Json

/-! Session files: the contents of the occupied cells as JSON. -/
namespace Spreadsheet.Session

def version : Int := 1

/-- The text of a session file for cells and their contents. -/
def text (cells : List (Address × String)) : String :=
  let fields : Datum.Fields := cells.map fun (a, content) => (a.text, .text content)
  Json.block (.mapping [("version", .int version), ("cells", .mapping fields)]) ++ "\n"

inductive Fault where
  | notJson
  | noCells
deriving DecidableEq

def cellOf : String × Datum → Except Fault (String × String)
  | (address, .text content) => .ok (address, content)
  | _ => .error .noCells

/-- The addresses and contents that a session file gives. -/
def read (s : String) : Except Fault (List (String × String)) :=
  match Json.parse s with
  | .error _ => .error .notJson
  | .ok (.mapping fields) =>
    match Datum.field? "cells" fields with
    | some (.mapping cells) => cells.mapM cellOf
    | _ => .error .noCells
  | .ok _ => .error .noCells

end Spreadsheet.Session
