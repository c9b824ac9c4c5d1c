import Spreadsheet.Number.DigitLimit
import Spreadsheet.Number.Layout
import Spreadsheet.Text.Digit

/-! Numerals: numbers as they are typed, with digits of any script. -/
namespace Spreadsheet.Number

open Text (isDigit numeral)

/-- A leading sign, true for minus, and what follows it. -/
def splitSign : List Char → Bool × List Char
  | '-' :: rest => (true, rest)
  | '+' :: rest => (false, rest)
  | cs => (false, cs)

def signed (negative : Bool) (n : Nat) : Int := if negative then -(n : Int) else n

def isDigits (cs : List Char) : Bool := !cs.isEmpty && cs.all isDigit

/-- A row of digits, unless there are too many of them. -/
def natOfDigits (cs : List Char) : Except DigitLimit Nat :=
  if maxDigits < cs.length then .error (.reading cs.length) else .ok (numeral cs)

def int? (cs : List Char) : Option Int :=
  let (negative, digits) := splitSign cs
  if isDigits digits && digits.length ≤ maxDigits then some (signed negative (numeral digits))
  else none

/-- The exponent part of a numeral, zero if there is none. -/
def exponent? : List Char → Option Int
  | [] => some 0
  | mark :: cs =>
    let (negative, digits) := splitSign cs
    if (mark == 'e' || mark == 'E') && isDigits digits then some (signed negative (numeral digits))
    else none

/-- A number with an optional sign, point and exponent, and a digit next to the point. -/
def Decimal.ofChars? (cs : List Char) : Option Decimal :=
  let (negative, body) := splitSign cs
  let whole := body.takeWhile isDigit
  let (fraction, rest) :=
    match body.dropWhile isDigit with
    | '.' :: tail => (tail.takeWhile isDigit, tail.dropWhile isDigit)
    | tail => ([], tail)
  if whole.isEmpty && fraction.isEmpty then none
  else (exponent? rest).map fun e => ⟨negative, numeral (whole ++ fraction), e - fraction.length⟩

end Spreadsheet.Number
