import Spreadsheet.Address.LineEdit
import Spreadsheet.Formula.Parser
import Spreadsheet.Formula.Printer

/-! Formulas after rows or columns were inserted or deleted: references follow the cells they name,
a range keeps what survives of it, and a reference without a cell becomes `#REF!`. -/
namespace Spreadsheet.Formula

/-- What stands for a reference to deleted cells. -/
def missing : Formula := .constant (.error .refMissing)

def shiftCell (e : LineEdit) (a : Address) : Formula :=
  match a.shift? e with
  | some b => .cell b
  | none => missing

/-- A range that does not move keeps its corners as written. -/
def shiftRange (e : LineEdit) (first last : Address) : Formula :=
  let r := Rectangle.ofCorners first last
  match r.shift? e with
  | none => missing
  | some moved => if moved = r then .range first last else .range moved.topLeft moved.bottomRight

mutual

def shift (e : LineEdit) : Formula → Formula
  | .constant v => .constant v
  | .cell a => shiftCell e a
  | .range a b => shiftRange e a b
  | .unary op x => .unary op (shift e x)
  | .binary op x y => .binary op (shift e x) (shift e y)
  | .call name xs => .call name (shiftAll e xs)

def shiftAll (e : LineEdit) : List Formula → List Formula
  | [] => []
  | x :: xs => shift e x :: shiftAll e xs

end

/-- Cell text after an edit. Text that is no formula stays, and so does a formula in which nothing
moves; any other is written anew, unless it names a row too long to write. -/
def shiftText (e : LineEdit) (s : String) : Except Number.DigitLimit String :=
  if !isFormulaText s then .ok s
  else
    match parse s with
    | .error _ => .ok s
    | .ok f =>
      let moved := f.shift e
      if moved = f then .ok s
      else if moved.isWritable then .ok moved.text
      else .error .writing

/-- Whether a reference cannot be moved without knowing whether rows or columns are meant: any but
a range under deletion, which is taken for columns. -/
def Reference.needsAxis (count : Int) : Reference → Bool
  | .cell _ => true
  | .range _ _ => 0 < count

/-- The axis to move a formula along; none if what was given is no axis and a reference needs
one. -/
def axisFor? (given : Datum) (count : Int) (f : Formula) : Option Axis :=
  match Axis.ofGiven? given with
  | some axis => some axis
  | none => if f.references.any (Reference.needsAxis count) then none else some .col

inductive ShiftFault where
  | axis (given : Datum)
  | tooLong (limit : Number.DigitLimit)

def ShiftFault.message : ShiftFault → String
  | .axis given => Axis.misnamed given
  | .tooLong limit => limit.message

/-- `shiftText` along what was given for an axis. -/
def shiftTextAlong (axis : Datum) (index count : Int) (s : String) : Except ShiftFault String :=
  let f := (parse s).toOption.getD missing
  match axisFor? axis count f with
  | none => .error (.axis axis)
  | some axis => (shiftText ⟨axis, index, count⟩ s).mapError .tooLong

end Spreadsheet.Formula
