import Spreadsheet.Data.Json

/-! Entries of the event log. An entry is a line of JSON with its keys in ascending order. -/
namespace Spreadsheet.Log

inductive Level where
  | info
  | warning
  | error
deriving DecidableEq, Repr

def Level.name : Level → String
  | .info => "info"
  | .warning => "warning"
  | .error => "error"

def Level.all : List Level := [.info, .warning, .error]

def Level.ofName? (s : String) : Option Level := all.find? (·.name == s)

inductive Topic where
  | cellSet
  | cellCleared
  | structureChanged
  | malformedFormula
  | rangeRejected
  | cycleRejected
  | recalculation
  | bulkLoad
deriving DecidableEq, Repr

def Topic.name : Topic → String
  | .cellSet => "cell_set"
  | .cellCleared => "cell_cleared"
  | .structureChanged => "structure_changed"
  | .malformedFormula => "formula_syntax_error"
  | .rangeRejected => "range_rejected"
  | .cycleRejected => "cycle_rejected"
  | .recalculation => "recalc_completed"
  | .bulkLoad => "bulk_load_completed"

def Topic.all : List Topic :=
  [.cellSet, .cellCleared, .structureChanged, .malformedFormula, .rangeRejected, .cycleRejected,
    .recalculation, .bulkLoad]

def Topic.ofName? (s : String) : Option Topic := all.find? (·.name == s)

def Topic.unknown (s : String) : String := Text.quoted s ++ " is not a valid EventType"

structure Entry where
  level : Level
  topic : Topic
  message : String
  context : Datum.Fields
  code : Option String
  version : Int := 1

namespace Entry

/-- Builds an entry from data that may not fit: the message has to be a text, the context a mapping or
void, and the code, which only warnings and errors have, a text or null. -/
def ofData? (level : Level) (topic : Topic) (message context code : Datum) : Option Entry :=
  match message, if context.isVoid then .mapping [] else context,
    if level = .info then .null else code with
  | .text message, .mapping fields, .null => some ⟨level, topic, message, fields, none, 1⟩
  | .text message, .mapping fields, .text code => some ⟨level, topic, message, fields, some code, 1⟩
  | _, _, _ => none

/-- The entry as data, with the time at which it was written. -/
def record (time : String) (e : Entry) : Datum :=
  .mapping [("context", .mapping e.context), ("error_code", (e.code.map .text).getD .null),
    ("event_type", .text e.topic.name), ("level", .text e.level.name), ("message", .text e.message),
    ("schema_version", .int e.version), ("ts", .text time)]

/-- The entry as a line of the log, without the line feed. -/
def line (time : String) (e : Entry) : String := Json.line (Json.sorted (e.record time))

end Entry
end Spreadsheet.Log
