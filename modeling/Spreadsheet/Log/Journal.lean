import Spreadsheet.Log.Entry
import Spreadsheet.Text.Blank

/-! The file that holds the event log. Entries are appended; what can be read are the lines that hold
JSON, so a line that was cut off costs no other one. -/
namespace Spreadsheet.Log

structure Journal where
  text : String
deriving DecidableEq

namespace Journal

def empty : Journal := ⟨""⟩

def fileName : String := "events.ndjson"

def appendText (j : Journal) (s : String) : Journal := ⟨j.text ++ s⟩

/-- Appends an entry on a line of its own. -/
def append (time : String) (j : Journal) (e : Entry) : Journal :=
  j.appendText (e.line time ++ "\n")

/-- Appends entries that are written at one time. -/
def appendAll (time : String) (j : Journal) (entries : List Entry) : Journal :=
  entries.foldl (append time) j

/-! ## Reading -/

/-- Adds what a line holds to the records before it, which are in reverse order. -/
def readLine (before : List Datum) (line : List Char) : Except Number.DigitLimit (List Datum) :=
  match Json.parse (String.ofList line) with
  | .ok record => .ok (record :: before)
  | .error .malformed => .ok before
  | .error (.tooLong limit) => .error limit

/-- The records of the file, the newest one first. -/
def records (j : Journal) : Except Number.DigitLimit (List Datum) :=
  (Text.lines j.text.toList).foldlM readLine []

/-- Which records to read. A negative limit counts from the oldest one. -/
structure Query where
  level : Option String := none
  topic : Option String := none
  limit : Option Int := some 200

/-- Whether a field of a record is a given text; any is if none is given. -/
def fieldIs (wanted : Option String) (key : String) (fields : Datum.Fields) : Bool :=
  match wanted with
  | none => true
  | some s =>
    match Datum.field? key fields with
    | some (.text found) => found == s
    | _ => false

inductive Fault where
  | tooLong (limit : Number.DigitLimit)
  /-- A record that has no fields cannot be asked for them. -/
  | noFields

def Query.accepts (q : Query) : Datum → Except Fault Bool
  | .mapping fields => .ok (fieldIs q.level "level" fields && fieldIs q.topic "event_type" fields)
  | _ => if q.level.isNone && q.topic.isNone then .ok true else .error .noFields

/-- The first items of a list, or all but the last ones if the count is negative. -/
def takeInt {α : Type} (count : Option Int) (xs : List α) : List α :=
  match count with
  | none => xs
  | some n => if 0 ≤ n then xs.take n.toNat else xs.take (xs.length - n.natAbs)

/-- The newest records that fit a query, the newest one first. -/
def read (j : Journal) (q : Query) : Except Fault (List Datum) := do
  let found ← (j.records.mapError .tooLong)
  let fitting ← found.filterM q.accepts
  return takeInt q.limit fitting

end Journal
end Spreadsheet.Log
