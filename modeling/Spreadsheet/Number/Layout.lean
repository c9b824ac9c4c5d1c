import Spreadsheet.Number.Decimal

/-! Floating-point numbers as text. -/
namespace Spreadsheet.Number

structure Layout where
  /-- Leading exponents from here on are written with `e`. -/
  exponentFrom : Int
  /-- Whether a whole number in positional notation ends in `.0`. -/
  keepsPoint : Bool

/-- The exact text of a number: positional below `10 ^ 16`. -/
def Layout.exact : Layout := ⟨16, true⟩

/-- Text of a given number of significant digits: positional while these reach the units. -/
def Layout.general (digits : Nat) : Layout := ⟨digits, false⟩

def natChars (n : Nat) : List Char := Nat.toDigits 10 n

/-- The sign and at least two digits of an exponent. -/
def exponentChars (e : Int) : List Char :=
  let digits := natChars e.natAbs
  (if e < 0 then '-' else '+') :: (if digits.length < 2 then '0' :: digits else digits)

namespace Layout

def fraction (layout : Layout) (digits : List Char) : List Char :=
  if digits.isEmpty then if layout.keepsPoint then ['.', '0'] else [] else '.' :: digits

/-- Positional notation from `10 ^ -4` up to the layout's limit, else one digit before the point and
an exponent. -/
def chars (layout : Layout) (d : Decimal) : List Char :=
  let digits := natChars d.coefficient
  let leading := d.exponent + digits.length - 1
  let sign := if d.negative then ['-'] else []
  if leading < -4 || layout.exponentFrom ≤ leading then
    let rest := digits.drop 1
    sign ++ digits.take 1 ++ (if rest.isEmpty then [] else '.' :: rest) ++
      'e' :: exponentChars leading
  else if leading < 0 then
    sign ++ '0' :: '.' :: List.replicate (-leading - 1).toNat '0' ++ digits
  else
    let whole := leading.toNat + 1
    sign ++ digits.take whole ++ List.replicate (whole - digits.length) '0' ++
      layout.fraction (digits.drop whole)

end Layout

namespace Binary64

def chars : Binary64 → List Char
  | .nan => ['n', 'a', 'n']
  | .infinite negative => if negative then ['-', 'i', 'n', 'f'] else ['i', 'n', 'f']
  | x => Layout.exact.chars x.shortest

/-- No finite number has more significant digits. -/
def mostDigits : Nat := 767

/-- Text of at most `digits` significant digits, without trailing zeros. -/
def general (digits : Nat) : Binary64 → List Char
  | .finite negative m =>
    let digits := max 1 digits
    let d := if m.significand = 0 then ⟨false, 0, 0⟩ else m.toDigits (min digits mostDigits)
    (Layout.general digits).chars { d with negative }
  | x => x.chars

end Binary64
end Spreadsheet.Number
