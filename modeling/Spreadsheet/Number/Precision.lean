import Spreadsheet.Number.DigitLimit

/-! Why a number has no text: how many significant digits the text of a floating-point number can be asked
to have, and that whole numbers must not be too long. -/
namespace Spreadsheet.Number

/-- Why a number has no text with a count of significant digits. -/
inductive PrecisionFault where
  | negative
  | tooGreat
  /-- The count is not even read to its end. -/
  | unreadable
  /-- The count is a number too long to write, or a whole number itself is. -/
  | unwritable (limit : DigitLimit)
deriving DecidableEq, Repr

def PrecisionFault.message : PrecisionFault → String
  | .negative => "Format specifier missing precision"
  | .tooGreat => "precision too big"
  | .unreadable => "Too many decimal digits in format string"
  | .unwritable limit => limit.message

def maxPrecision : Nat := twoTo 31 - 1

/-- Greater counts are not read to their end. -/
def maxReadablePrecision : Nat := twoTo 63 - 1

/-- A count of significant digits that a text can have. -/
def checkPrecision (digits : Int) : Except PrecisionFault Nat :=
  if 0 ≤ digits ∧ digits ≤ maxPrecision then .ok digits.toNat
  else if !isWritable digits then .error (.unwritable .writing)
  else if digits < 0 then .error .negative
  else if digits ≤ maxReadablePrecision then .error .tooGreat
  else .error .unreadable

theorem checkPrecision_eq_ok {digits : Int} (h : 0 ≤ digits ∧ digits ≤ maxPrecision) :
    checkPrecision digits = .ok digits.toNat := if_pos h

end Spreadsheet.Number
