import Spreadsheet.Data.Yaml.Fault
import Spreadsheet.Data.Yaml.Value

/-! Settings of a sheet: a mapping whose numeric entries have to be positive whole numbers. Entries
that a sheet does not know are kept. -/
namespace Spreadsheet

abbrev Settings := Yaml.Value.Entries

abbrev Positive := { n : Int // 1 ≤ n }

structure Limits where
  rows : Positive
  cols : Positive
  /-- How many cells a range may have. -/
  rangeCells : Positive
  precision : Positive

namespace Settings

def defaults : Settings :=
  [(.text "max_rows", .int 1048576), (.text "max_cols", .int 16384),
    (.text "max_range_cells", .int 1000000), (.text "display_precision", .int 10),
    (.text "logging_dir", .null), (.text "logging_fsync", .bool false)]

def setting? (settings : Settings) (key : String) : Option Yaml.Value :=
  Yaml.Value.valueAt? key settings

inductive Fault where
  | notPositive (key : String) (found : Yaml.Value)
  | notMapping (path : String) (found : Yaml.Value)
  | unreadable (path : String) (fault : Yaml.Fault)
  | directory (path : String)

def Fault.message : Fault → String
  | .notPositive key found =>
    s!"Config {Text.quoted key} must be a positive integer, got " ++ found.literal
  | .notMapping path found => s!"{path} must contain a mapping, got {found.kindName}"
  | .unreadable path fault => fault.message?.getD s!"{path} is not a YAML document"
  | .directory path => "[Errno 21] Is a directory: " ++ Text.quoted path

def positive (settings : Settings) (key : String) : Except Fault Positive :=
  match (settings.setting? key).getD .null with
  | .int n => if h : 1 ≤ n then .ok ⟨n, h⟩ else .error (.notPositive key (.int n))
  | found => .error (.notPositive key found)

/-- The limits that settings give. The first entry that is no positive whole number is the fault. -/
def limits (settings : Settings) : Except Fault Limits := do
  let rows ← positive settings "max_rows"
  let cols ← positive settings "max_cols"
  let rangeCells ← positive settings "max_range_cells"
  let precision ← positive settings "display_precision"
  return ⟨rows, cols, rangeCells, precision⟩

def checked (settings : Settings) : Except Fault Settings := settings.limits.map fun _ => settings

/-- Settings as read from a file over the defaults; a file without content changes nothing. -/
def overDefaults (path : String) (read : Yaml.Value) : Except Fault Settings :=
  if read.isVoid then .ok defaults
  else
    match read with
    | .mapping entries => checked (Yaml.Value.overlay defaults entries)
    | found => .error (.notMapping path found)

/-- The directory for the event log, if there is to be one. -/
def logDirectory? (settings : Settings) : Option Yaml.Value :=
  (settings.setting? "logging_dir").filter fun found => !found.isVoid

end Settings
end Spreadsheet
