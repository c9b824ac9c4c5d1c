import Spreadsheet.Data.Calendar
import Spreadsheet.Data.Datum

/-! What YAML documents hold: plain data, and besides it bytes, days, moments, sets, pairs, and mappings
with keys of any kind. -/
namespace Spreadsheet.Yaml

open Number (Binary64)

inductive Value where
  | null
  | bool (value : Bool)
  | int (value : Int)
  | float (value : Binary64)
  | text (value : String)
  | binary (bytes : List UInt8)
  | day (value : Calendar.Day)
  | moment (value : Calendar.Moment)
  | list (items : List Value)
  | mapping (entries : List (Value × Value))
  | set (members : List Value)
  | pair (first second : Value)
  /-- In a list or a mapping that holds itself, the place where it does. -/
  | enclosing (isMapping : Bool)

namespace Value

instance : Inhabited Value := ⟨.null⟩

abbrev Entries := List (Value × Value)

def kindName : Value → String
  | .null => "NoneType"
  | .bool _ => "bool"
  | .int _ => "int"
  | .float _ => "float"
  | .text _ => "str"
  | .binary _ => "bytes"
  | .day _ => "date"
  | .moment _ => "datetime"
  | .list _ => "list"
  | .mapping _ => "dict"
  | .set _ => "set"
  | .pair _ _ => "tuple"
  | .enclosing isMapping => if isMapping then "dict" else "list"

/-- Null, false, zero and whatever is empty. -/
def isVoid : Value → Bool
  | .null => true
  | .bool value => !value
  | .int value => value == 0
  | .float value => value.isZero
  | .text value => value.isEmpty
  | .binary bytes => bytes.isEmpty
  | .list items => items.isEmpty
  | .mapping entries => entries.isEmpty
  | .set members => members.isEmpty
  | .day _ | .moment _ | .pair _ _ | .enclosing _ => false

/-! ## Keys -/

/-- Truth values count as one and zero beside numbers. -/
def number? : Value → Option Number
  | .bool value => some (.int (if value then 1 else 0))
  | .int value => some (.int value)
  | .float value => some (.float value)
  | _ => none

/-- Whether two values are one key of a mapping: numbers of one value are. -/
def isSameKey (a b : Value) : Bool :=
  match a, b with
  | .null, .null => true
  | .float .nan, .float .nan => true
  | .text s, .text t => s == t
  | .binary s, .binary t => s == t
  | .day d, .day e => d == e
  | .moment m, .moment n => m.agrees n
  | a, b =>
    match a.number?, b.number? with
    | some n, some m => n.compare? m == some .eq
    | _, _ => false

/-- Replaces the value of a key, which stays as it is in its place, or adds an entry at the end. -/
def put (key value : Value) : Entries → Entries
  | [] => [(key, value)]
  | (k, v) :: rest => if k.isSameKey key then (k, value) :: rest else (k, v) :: put key value rest

/-- The entries of `upper` over those of `lower`. -/
def overlay (lower upper : Entries) : Entries :=
  upper.foldl (fun entries (key, value) => put key value entries) lower

/-- The value of a text among the keys. -/
def valueAt? (key : String) (entries : Entries) : Option Value :=
  (entries.find? fun (k, _) => k.isSameKey (.text key)).map Prod.snd

/-! ## Notation -/

/-- A byte between quotation marks. -/
def escapedByte (mark : Char) (byte : UInt8) : List Char :=
  let c := Char.ofNat byte.toNat
  if byte < 0x7F then Text.escaped mark c else '\\' :: 'x' :: Text.hex 2 byte.toNat

def bytesLiteral (bytes : List UInt8) : String :=
  let mark := Text.quotationMark (bytes.map fun byte => Char.ofNat byte.toNat)
  String.ofList ('b' :: mark :: (bytes.flatMap (escapedByte mark) ++ [mark]))

mutual

def literal : Value → String
  | .null => "None"
  | .bool value => if value then "True" else "False"
  | .int value => toString value
  | .float value => String.ofList value.chars
  | .text value => Text.quoted value
  | .binary bytes => bytesLiteral bytes
  | .day value => value.literal
  | .moment value => value.literal
  | .list items => "[" ++ ", ".intercalate (literals items) ++ "]"
  | .mapping entries => "\x7b" ++ ", ".intercalate (entryLiterals entries) ++ "\x7d"
  | .set [] => "set()"
  | .set (member :: members) =>
    "\x7b" ++ ", ".intercalate (literal member :: literals members) ++ "\x7d"
  | .pair first second => "(" ++ literal first ++ ", " ++ literal second ++ ")"
  | .enclosing isMapping => if isMapping then "\x7b...\x7d" else "[...]"

def literals : List Value → List String
  | [] => []
  | item :: items => literal item :: literals items

def entryLiterals : List (Value × Value) → List String
  | [] => []
  | (key, value) :: entries => (literal key ++ ": " ++ literal value) :: entryLiterals entries

end

/-- A value as text by itself: texts, days and moments stand without notation. -/
def shown : Value → String
  | .text value => value
  | .day value => value.text
  | .moment value => value.text
  | value => value.literal

mutual

/-- Whether a list or a mapping in a value holds itself. -/
def isEndless : Value → Bool
  | .enclosing _ => true
  | .list items => anyEndless items
  | .mapping entries => anyEntryEndless entries
  | .pair first second => isEndless first || isEndless second
  | _ => false

def anyEndless : List Value → Bool
  | [] => false
  | item :: items => isEndless item || anyEndless items

def anyEntryEndless : List (Value × Value) → Bool
  | [] => false
  | (_, value) :: entries => isEndless value || anyEntryEndless entries

end

/-! ## Plain data -/

mutual

def ofDatum : Datum → Value
  | .null => .null
  | .bool value => .bool value
  | .int value => .int value
  | .float value => .float value
  | .text value => .text value
  | .list items => .list (ofData items)
  | .mapping fields => .mapping (ofFields fields)

def ofData : List Datum → List Value
  | [] => []
  | item :: items => ofDatum item :: ofData items

def ofFields : List (String × Datum) → List (Value × Value)
  | [] => []
  | (key, value) :: fields => (.text key, ofDatum value) :: ofFields fields

end

end Value
end Spreadsheet.Yaml
