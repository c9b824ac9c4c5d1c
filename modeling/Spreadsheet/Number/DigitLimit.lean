import Spreadsheet.Number.Power

/-! Whole numbers of more than 4300 digits are neither read nor written. -/
namespace Spreadsheet.Number

def maxDigits : Nat := 4300

/-- A whole number was too long to read, with its count of digits, or to write. -/
inductive DigitLimit where
  | reading (digits : Nat)
  | writing
deriving DecidableEq, Repr

def DigitLimit.message : DigitLimit → String
  | .reading digits =>
    s!"Exceeds the limit ({maxDigits} digits) for integer string conversion: value has {digits} " ++
      "digits; use sys.set_int_max_str_digits() to increase the limit"
  | .writing =>
    s!"Exceeds the limit ({maxDigits} digits) for integer string conversion; " ++
      "use sys.set_int_max_str_digits() to increase the limit"

/-- Whether a whole number is short enough to write. -/
def isWritable (i : Int) : Bool := i.natAbs < tenTo maxDigits

end Spreadsheet.Number
