import Spreadsheet.Log.Journal

/-! A directory that takes the event log. Writing fails if a number in the event is too long to write,
and once the directory is gone; an event that cannot be written is lost without harm to whoever reports
it. -/
namespace Spreadsheet.Log

structure Sink where
  present : Bool
  /-- The file in it, from the first entry on. -/
  journal : Option Journal
  listening : Bool

namespace Sink

def new : Sink := ⟨true, none, true⟩

inductive Fault where
  | missing
  /-- A whole number in the event has too many digits. -/
  | tooLong (limit : Number.DigitLimit)
deriving DecidableEq

/-- Appends text to the file, which is made if it is not there. -/
def appendText (k : Sink) (s : String) : Except Fault Sink :=
  if k.present then .ok { k with journal := some ((k.journal.getD .empty).appendText s) }
  else .error .missing

def write (time : String) (k : Sink) (e : Entry) : Except Fault Sink :=
  if !Json.hasText (e.record time) then .error (.tooLong .writing)
  else if k.present then .ok { k with journal := some ((k.journal.getD .empty).append time e) }
  else .error .missing

/-- Reports an event; it is lost if it cannot be written. -/
def emit (time : String) (k : Sink) (e : Entry) : Sink :=
  if k.listening then (k.write time e).toOption.getD k else k

/-- Removes the directory with the file in it. -/
def remove (k : Sink) : Sink := { k with present := false, journal := none }

def mute (k : Sink) : Sink := { k with listening := false }

def read (k : Sink) (q : Journal.Query) : Except Journal.Fault (List Datum) :=
  (k.journal.getD .empty).read q

/-- The text of the file with line feeds at the ends of lines. -/
def text? (k : Sink) : Option String :=
  k.journal.map fun j => String.ofList (Text.withLineFeeds j.text.toList)

end Sink
end Spreadsheet.Log
