import Spreadsheet.Data.Datum
import Spreadsheet.Text.Blank
import Spreadsheet.Text.Case

/-! Cell addresses. Rows and columns count from zero; in text a column is a row of letters, a
numeral in base 26 without a zero, and a row is its number counted from one. -/
namespace Spreadsheet

open Number (DigitLimit natOfDigits)

structure Address where
  row : Int
  col : Int
deriving DecidableEq, Repr, Inhabited

namespace Address

/-- Addresses ascend row by row. -/
instance : Ord Address := ⟨compareLex (compareOn row) (compareOn col)⟩

instance : Std.TransOrd Address :=
  inferInstanceAs (Std.TransCmp (compareLex (compareOn row) (compareOn col)))

instance : Std.LawfulEqOrd Address where
  eq_of_compare {a b} h := by
    have h' : compare a.row b.row = .eq ∧ compare a.col b.col = .eq := compareLex_eq_eq.mp h
    cases a; cases b
    simp only [Std.LawfulEqOrd.compare_eq_iff_eq] at h'
    simp [h'.1, h'.2]

/-! ## Columns -/

def letter (n : Nat) : Char := Char.ofNat (0x41 + n)

/-- The letters of a column counted from one. -/
def letters (n : Nat) : List Char :=
  if n = 0 then [] else letters ((n - 1) / 26) ++ [letter ((n - 1) % 26)]
termination_by n

def columnChars (col : Int) : List Char := letters (col + 1).toNat

/-- The column that a text spells when every character is read as a letter. -/
def columnIndex (cs : List Char) : Int :=
  (Text.upper cs).foldl (fun index c => index * 26 + ((c.toNat : Int) - 0x40)) 0 - 1

/-! ## Text -/

def chars (a : Address) : List Char := columnChars a.col ++ (toString (a.row + 1)).toList

/-- `B3` for the third row of the second column. -/
def text (a : Address) : String := String.ofList a.chars

instance : ToString Address := ⟨text⟩

def isWritable (a : Address) : Bool := Number.isWritable (a.row + 1)

/-- The text of an address whose row is short enough to write. -/
def text? (a : Address) : Except DigitLimit String :=
  if a.isWritable then .ok a.text else .error .writing

/-- What may be given for an address: text, its components, or anything else by mistake. -/
inductive Given where
  | text (value : String)
  | components (items : List Datum)
  | other (value : Datum)

def Given.literal : Given → String
  | .text value => Text.quoted value
  | .components [item] => "(" ++ item.literal ++ ",)"
  | .components items => "(" ++ ", ".intercalate (Datum.literals items) ++ ")"
  | .other value => value.literal

inductive Fault where
  | malformed (given : Given)
  | rowZero (text : String)
  | negative (given : Given)
  | tooLong (limit : DigitLimit)

def Fault.message : Fault → String
  | .malformed given => "Invalid cell address: " ++ given.literal
  | .rowZero text => "Invalid cell address: " ++ Text.quoted text ++ " (rows start at 1)"
  | .negative given => "Invalid cell address: " ++ given.literal ++ " (negative component)"
  | .tooLong limit => limit.message

/-- Skips a mark that fixes a row or a column. -/
def dropMark : List Char → List Char
  | '$' :: rest => rest
  | cs => cs

def isColumnLetter (c : Char) : Bool := 0x41 ≤ c.toNat && c.toNat ≤ 0x5A

/-- The letters and the digits of an address in upper case. -/
def split? (cs : List Char) : Option (List Char × List Char) :=
  let body := dropMark cs
  let letters := body.takeWhile isColumnLetter
  let digits := dropMark (body.dropWhile isColumnLetter)
  if 1 ≤ letters.length && letters.length ≤ 3 && Number.isDigits digits then
    some (letters, digits)
  else none

/-- Reads `B3`, in any case and with marks, as in `$b$3`. -/
def ofText? (s : String) : Except Fault Address :=
  match split? (Text.upper (Text.trim s.toList)) with
  | none => .error (.malformed (.text s))
  | some (letters, digits) =>
    match natOfDigits digits with
    | .error limit => .error (.tooLong limit)
    | .ok 0 => .error (.rowZero s)
    | .ok (row + 1) => .ok ⟨row, columnIndex letters⟩

def ofGiven? : Given → Except Fault Address
  | .text s => ofText? s
  | .components [.int row, .int col] =>
    if row < 0 ∨ col < 0 then .error (.negative (.components [.int row, .int col])) else .ok ⟨row, col⟩
  | given => .error (.malformed given)

def given (a : Address) : Given := .components [.int a.row, .int a.col]

/-! ## Neighbours -/

/-- Whether an index stays below a bound, where there is one. -/
def isBelow (bound : Option Int) (index : Int) : Bool := bound.all (index < ·)

def above? (a : Address) : Option Address :=
  if a.row = 0 then none else some { a with row := a.row - 1 }

def left? (a : Address) : Option Address :=
  if a.col = 0 then none else some { a with col := a.col - 1 }

def below? (maxRows : Option Int) (a : Address) : Option Address :=
  if isBelow maxRows (a.row + 1) then some { a with row := a.row + 1 } else none

def right? (maxCols : Option Int) (a : Address) : Option Address :=
  if isBelow maxCols (a.col + 1) then some { a with col := a.col + 1 } else none

end Address
end Spreadsheet
