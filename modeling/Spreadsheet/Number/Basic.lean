import Spreadsheet.Number.Numeral
import Spreadsheet.Number.Precision

/-! The numbers of a sheet: whole numbers of any size beside binary floating point. -/
namespace Spreadsheet

open Number (Binary64 Decimal)

inductive Number where
  | int (value : Int)
  | float (value : Binary64)
deriving DecidableEq

namespace Number

instance : Inhabited Number := ⟨.int 0⟩

/-- The floating-point form; a whole number past the range has none. -/
def float? : Number → Option Binary64
  | .int i =>
    let x := Binary64.ofInt i
    if x.isFinite then some x else none
  | .float x => some x

def isFinite : Number → Bool
  | .int _ => true
  | .float x => x.isFinite

def isZero : Number → Bool
  | .int i => i == 0
  | .float x => x.isZero

/-- The order of the exact values; not a number has none. -/
def compare? : Number → Number → Option Ordering
  | .int i, .int j => some (compare i j)
  | .float x, .float y => x.compare? y
  | .float x, .int j => x.compareInt? j
  | .int i, .float y => (y.compareInt? i).map Ordering.swap

def lt (a b : Number) : Bool := a.compare? b == some .lt

/-- Combines two whole numbers exactly and any others as floating point; none if a whole number has
no floating-point form. -/
def combine? (whole : Int → Int → Int) (float : Binary64 → Binary64 → Binary64) :
    Number → Number → Option Number
  | .int i, .int j => some (.int (whole i j))
  | a, b => do return .float (float (← a.float?) (← b.float?))

def add? : Number → Number → Option Number := combine? (· + ·) Binary64.add
def sub? : Number → Number → Option Number := combine? (· - ·) Binary64.sub
def mul? : Number → Number → Option Number := combine? (· * ·) Binary64.mul

/-- The remainder that has the sign of the divisor. -/
def mod? : Number → Number → Option Number := combine? Int.fmod Binary64.mod

/-- The quotient is always floating point; that of whole numbers is rounded once. -/
def div? : Number → Number → Option Number
  | .int i, .int j => some (.float (.ofRatio ((i < 0) != (j < 0)) i.natAbs j.natAbs))
  | a, b => do return .float ((← a.float?).div (← b.float?))

def neg : Number → Number
  | .int i => .int (-i)
  | .float x => .float x.neg

def abs : Number → Number
  | .int i => .int i.natAbs
  | .float x => .float x.abs

def floor : Number → Int
  | .int i => i
  | .float x => x.floor

def truncate : Number → Int
  | .int i => i
  | .float x => x.truncate

/-- Whole numbers from here on are carried as floating point. -/
def maxExactInt : Nat := twoTo 53

/-- A number as calculations carry it: a whole number below `2 ^ 53`, or a finite float. -/
def carried? : Number → Option Number
  | .int i => if i.natAbs < maxExactInt then some (.int i) else (float? (.int i)).map .float
  | .float x => if x.isFinite then some (.float x) else none

/-- The decimal that a number's text denotes. -/
def decimal : Number → Decimal
  | .int i => ⟨i < 0, i.natAbs, 0⟩
  | .float x => x.shortest

/-- The text that denotes exactly this number. -/
def chars : Number → List Char
  | .int i => (toString i).toList
  | .float x => x.chars

/-- The text shown to a reader. Whole numbers that are not too long show all their digits, and so do
whole floats below `10 ^ 15`; only for other floats the precision counts. -/
def display (precision : Int) : Number → Except PrecisionFault (List Char)
  | .int i => if isWritable i then .ok (toString i).toList else .error (.unwritable .writing)
  | .float x =>
    if x.isWhole && x.truncate.natAbs < tenTo 15 then .ok (toString x.truncate).toList
    else (checkPrecision precision).map fun digits => x.general digits

end Number
end Spreadsheet
