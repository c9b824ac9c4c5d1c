import Spreadsheet.Number.Binary64

/-! Decimal fractions and their passage to and from binary floating point: reading rounds once, and
writing takes the fewest digits that read back as the same number. -/
namespace Spreadsheet.Number

/-- `coefficient * 10 ^ exponent`, with a sign. -/
structure Decimal where
  negative : Bool
  coefficient : Nat
  exponent : Int
deriving DecidableEq

namespace Decimal

/-- One more than the exponent of the leading digit. -/
def pointPosition (d : Decimal) : Int := digitCount d.coefficient + d.exponent

/-- `d` as a quotient: the numerator and the denominator of its absolute value. -/
def ratio (d : Decimal) : Nat × Nat :=
  if 0 ≤ d.exponent then (d.coefficient * tenTo d.exponent.toNat, 1)
  else (d.coefficient, tenTo (-d.exponent).toNat)

/-- The nearest binary number. Past `10 ^ 309` all are infinite and below `10 ^ -324` all are zero,
so that no exponent is too long to compute with. -/
def toBinary (d : Decimal) : Binary64 :=
  if d.coefficient = 0 ∨ d.pointPosition ≤ -324 then .zero d.negative
  else if 309 < d.pointPosition then .infinite d.negative
  else .ofRatio d.negative d.ratio.1 d.ratio.2

/-- Moves trailing zeros of the coefficient into the exponent. -/
def normalized (d : Decimal) : Decimal :=
  if d.coefficient = 0 then { d with exponent := 0 }
  else
    let (c, k) := dropZeros (digitCount d.coefficient) d.coefficient
    { d with coefficient := c, exponent := d.exponent + k }

/-- The nearest multiple of `10 ^ exponent`, halves away from zero. -/
def roundTo (d : Decimal) (exponent : Int) : Decimal :=
  let shift := d.exponent - exponent
  let c :=
    if 0 ≤ shift then d.coefficient * tenTo shift.toNat
    else roundHalfUp d.coefficient (tenTo (-shift).toNat)
  ⟨d.negative, c, exponent⟩

def truncate (d : Decimal) : Int :=
  let n := d.ratio.1 / d.ratio.2
  if d.negative then -(n : Int) else n

end Decimal

namespace Magnitude

/-- The exponent of the leading decimal digit of a magnitude other than zero. -/
def decimalExponent (m : Magnitude) : Int :=
  if Binary64.one ≤ m.units then (digitCount (m.units / Binary64.one) : Int) - 1
  else -(digitCount ((Binary64.one + m.units - 1) / m.units - 1) : Int)

/-- The magnitude divided by `10 ^ exponent`, as a quotient. -/
def scaled (m : Magnitude) (exponent : Int) : Nat × Nat :=
  if 0 ≤ exponent then (m.units, Binary64.one * tenTo exponent.toNat)
  else (m.units * tenTo (-exponent).toNat, Binary64.one)

/-- The multiples of `10 ^ exponent` on both sides, the nearer first; a tie puts the even one
first. -/
def neighbours (m : Magnitude) (exponent : Int) : List Decimal :=
  let (n, d) := m.scaled exponent
  let low := n / d
  let near := roundHalfEven n d
  let far := if near = low then low + 1 else low
  [⟨false, near, exponent⟩, ⟨false, far, exponent⟩]

/-- The decimal of at most `digits` digits that reads back, if one does. -/
def readsBackWith? (m : Magnitude) (digits : Nat) : Option Decimal :=
  (m.neighbours (m.decimalExponent - digits + 1)).find? fun d => d.toBinary = .finite false m

/-- Seventeen digits always suffice. -/
def shortest (m : Magnitude) : Decimal :=
  let digits := (List.range 17).map (· + 1)
  match digits.findSome? m.readsBackWith? with
  | some d => d.normalized
  | none => (Decimal.mk false (roundHalfEven (m.scaled (m.decimalExponent - 16)).1
      (m.scaled (m.decimalExponent - 16)).2) (m.decimalExponent - 16)).normalized

/-- The decimal of `digits` significant digits nearest to the magnitude, ties to even. -/
def toDigits (m : Magnitude) (digits : Nat) : Decimal :=
  let exponent := m.decimalExponent - digits + 1
  let (n, d) := m.scaled exponent
  (Decimal.mk false (roundHalfEven n d) exponent).normalized

end Magnitude

/-- The decimal that stands for a finite number in writing: the nearest one of the fewest digits
that read back. -/
def Binary64.shortest : Binary64 → Decimal
  | .finite negative m =>
    if m.significand = 0 then ⟨negative, 0, 0⟩
    else { m.shortest with negative }
  | _ => ⟨false, 0, 0⟩

end Spreadsheet.Number
