import Spreadsheet.Data.Calendar
import Spreadsheet.Number.DigitLimit
import Spreadsheet.Text.Quoted

/-! Why a text is no YAML document, or a document without a value. -/
namespace Spreadsheet.Yaml

inductive Fault where
  | forbidden (c : Char)
  /-- A token cannot be read, or not where it stands. -/
  | token
  /-- A token cannot follow those before it. -/
  | order
  /-- An alias without an anchor, an anchor given twice, or a second document. -/
  | reference
  /-- A tag that nothing is known about, or one on a node of another kind; a key that cannot be one. -/
  | tag
  | noWhole (base : Nat) (found : String)
  | noFloat (found : String)
  | noBool
  | noMoment
  | noCharacter
  | tooLong (limit : Number.DigitLimit)
  | tooGreat
  | calendar (fault : Calendar.Fault)
  /-- An escape for a number that is no character. -/
  | noCodePoint
deriving DecidableEq

/-- What is wrong with a value, for faults that lie in one. -/
def Fault.message? : Fault → Option String
  | .noWhole base found =>
    let shown := (Text.quotedChars found.toList).take 200
    some (s!"invalid literal for int() with base {base}: " ++ String.ofList shown)
  | .noFloat found => some ("could not convert string to float: " ++ Text.quoted found)
  | .tooLong limit => some limit.message
  | .calendar fault => some fault.message
  | .noCodePoint => some "chr() arg not in range(0x110000)"
  | _ => none

end Spreadsheet.Yaml
