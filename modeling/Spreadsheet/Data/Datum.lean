import Spreadsheet.Number.Basic
import Spreadsheet.Text.Quoted

/-! Plain data: what log records and session files are made of. -/
namespace Spreadsheet

inductive Datum where
  | null
  | bool (value : Bool)
  | int (value : Int)
  | float (value : Number.Binary64)
  | text (value : String)
  | list (items : List Datum)
  | mapping (fields : List (String × Datum))

namespace Datum

instance : Inhabited Datum := ⟨.null⟩

abbrev Fields := List (String × Datum)

/-- Replaces the value of a key in its place, or adds the key at the end. -/
def put (key : String) (value : Datum) : Fields → Fields
  | [] => [(key, value)]
  | (k, v) :: rest => if k = key then (k, value) :: rest else (k, v) :: put key value rest

def field? (key : String) (fields : Fields) : Option Datum := fields.lookup key

def kindName : Datum → String
  | .null => "NoneType"
  | .bool _ => "bool"
  | .int _ => "int"
  | .float _ => "float"
  | .text _ => "str"
  | .list _ => "list"
  | .mapping _ => "dict"

/-- Null, false, zero and whatever is empty. -/
def isVoid : Datum → Bool
  | .null => true
  | .bool value => !value
  | .int value => value == 0
  | .float value => value.isZero
  | .text value => value.isEmpty
  | .list items => items.isEmpty
  | .mapping fields => fields.isEmpty

mutual

def literal : Datum → String
  | .null => "None"
  | .bool value => if value then "True" else "False"
  | .int value => toString value
  | .float value => String.ofList value.chars
  | .text value => Text.quoted value
  | .list items => "[" ++ ", ".intercalate (literals items) ++ "]"
  | .mapping fields => "\x7b" ++ ", ".intercalate (fieldLiterals fields) ++ "\x7d"

def literals : List Datum → List String
  | [] => []
  | item :: items => literal item :: literals items

def fieldLiterals : List (String × Datum) → List String
  | [] => []
  | (key, value) :: fields => (Text.quoted key ++ ": " ++ literal value) :: fieldLiterals fields

end

end Datum
end Spreadsheet
