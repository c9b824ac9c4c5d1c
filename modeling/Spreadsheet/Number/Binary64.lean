import Spreadsheet.Number.Power
import Spreadsheet.Number.Rounding

/-! Binary floating point of double precision. A finite number is a whole number of units, where a
unit is `2 ^ -1074`, the least positive number of the format. Every operation takes the exact
result as a quotient of units and rounds it once, to the nearest number, ties to even. -/
namespace Spreadsheet.Number

/-- The absolute value of a finite number: `significand * 2 ^ shift` units. -/
structure Magnitude where
  significand : Nat
  shift : Nat
  significand_lt : significand < twoTo 53
  shift_le : shift ≤ 2045
  normal : twoTo 52 ≤ significand ∨ shift = 0
deriving DecidableEq

namespace Magnitude

def units (m : Magnitude) : Nat := m.significand * twoTo m.shift

def zero : Magnitude := ⟨0, 0, by decide, by decide, .inr rfl⟩

def ofParts? (significand shift : Nat) : Option Magnitude :=
  if h : significand < twoTo 53 ∧ shift ≤ 2045 ∧ (twoTo 52 ≤ significand ∨ shift = 0) then
    some ⟨significand, shift, h.1, h.2.1, h.2.2⟩
  else none

/-- The least shift at which `n / d` units have a significand below `2 ^ 53`. -/
def shiftFor (n d : Nat) : Nat :=
  let p := n.log2 - (d.log2 + 52)
  if 0 < p ∧ n < d * twoTo (p + 52) then p - 1 else p

/-- The magnitude nearest to `n / d` units, or none past the largest one. -/
def nearest? (n d : Nat) : Option Magnitude :=
  let p := shiftFor n d
  let m := roundHalfEven n (d * twoTo p)
  if m = twoTo 53 then ofParts? (twoTo 52) (p + 1) else ofParts? m p

end Magnitude

/-- A number of the format. Zero has two signs. -/
inductive Binary64 where
  | finite (negative : Bool) (magnitude : Magnitude)
  | infinite (negative : Bool)
  | nan
deriving DecidableEq

namespace Binary64

def one : Nat := twoTo 1074

def zero (negative : Bool) : Binary64 := .finite negative .zero

instance : Inhabited Binary64 := ⟨zero false⟩

/-- The number nearest to `n / d` units, infinite past the largest finite one. -/
def ofUnits (negative : Bool) (n d : Nat) : Binary64 :=
  match Magnitude.nearest? n d with
  | some m => .finite negative m
  | none => .infinite negative

def ofRatio (negative : Bool) (n d : Nat) : Binary64 := ofUnits negative (n * one) d

def ofInt (i : Int) : Binary64 := ofRatio (i < 0) i.natAbs 1

def isFinite : Binary64 → Bool
  | .finite .. => true
  | _ => false

def isZero : Binary64 → Bool
  | .finite _ m => m.significand == 0
  | _ => false

/-- A finite number counted in units, with its sign. -/
def signedUnits (negative : Bool) (m : Magnitude) : Int :=
  if negative then -(m.units : Int) else m.units

def neg : Binary64 → Binary64
  | .finite negative m => .finite (!negative) m
  | .infinite negative => .infinite (!negative)
  | .nan => .nan

def abs : Binary64 → Binary64
  | .finite _ m => .finite false m
  | .infinite _ => .infinite false
  | .nan => .nan

/-- An exact sum of zero is negative only if both terms are. -/
def add : Binary64 → Binary64 → Binary64
  | .finite s m, .finite t k =>
    let sum := signedUnits s m + signedUnits t k
    if sum = 0 then zero (s && t) else ofUnits (sum < 0) sum.natAbs 1
  | .infinite s, .infinite t => if s = t then .infinite s else .nan
  | .infinite s, .finite .. => .infinite s
  | .finite .., .infinite t => .infinite t
  | .nan, _ => .nan
  | _, .nan => .nan

def sub (x y : Binary64) : Binary64 := add x y.neg

def mul : Binary64 → Binary64 → Binary64
  | .finite s m, .finite t k => ofUnits (s != t) (m.units * k.units) one
  | .infinite s, .infinite t => .infinite (s != t)
  | .infinite s, .finite t k => if k.significand = 0 then .nan else .infinite (s != t)
  | .finite s m, .infinite t => if m.significand = 0 then .nan else .infinite (s != t)
  | .nan, _ => .nan
  | _, .nan => .nan

def div : Binary64 → Binary64 → Binary64
  | .finite s m, .finite t k =>
    if k.significand = 0 then
      if m.significand = 0 then .nan else .infinite (s != t)
    else ofUnits (s != t) (m.units * one) k.units
  | .infinite _, .infinite _ => .nan
  | .infinite s, .finite t _ => .infinite (s != t)
  | .finite s _, .infinite t => zero (s != t)
  | .nan, _ => .nan
  | _, .nan => .nan

/-- The remainder that has the sign of the divisor. -/
def mod : Binary64 → Binary64 → Binary64
  | .finite s m, .finite t k =>
    let r := m.units % k.units
    if k.significand = 0 then .nan
    else if r = 0 then zero t
    else if s = t then ofUnits s r 1
    else add (ofUnits s r 1) (.finite t k)
  | .finite s m, .infinite t =>
    if m.significand = 0 then zero t else if s = t then .finite s m else .infinite t
  | _, _ => .nan

/-- The root lies strictly between `r` and `r + 1` units unless `r` is exact, and then rounds as
`r + 1/2` does. -/
def sqrt : Binary64 → Binary64
  | .finite s m =>
    if m.significand = 0 then zero s
    else if s then .nan
    else
      let n := m.units * one
      let r := floorSqrt n
      if r * r = n then ofUnits false r 1 else ofUnits false (2 * r + 1) 2
  | .infinite false => .infinite false
  | _ => .nan

/-- The order of the values; not a number has none. -/
def compare? : Binary64 → Binary64 → Option Ordering
  | .finite s m, .finite t k => some (compare (signedUnits s m) (signedUnits t k))
  | .infinite s, .infinite t => some (compare (!s) (!t))
  | .infinite s, .finite .. => some (if s then .lt else .gt)
  | .finite .., .infinite t => some (if t then .gt else .lt)
  | .nan, _ => none
  | _, .nan => none

/-- The order of a number and a whole number, without rounding either. -/
def compareInt? : Binary64 → Int → Option Ordering
  | .finite s m, i => some (compare (signedUnits s m) (i * one))
  | .infinite s, _ => some (if s then .lt else .gt)
  | .nan, _ => none

def truncate : Binary64 → Int
  | .finite s m => if s then -((m.units / one : Nat) : Int) else (m.units / one : Nat)
  | _ => 0

/-- The greatest whole number that is not above a finite number. -/
def floor : Binary64 → Int
  | .finite s m => Int.fdiv (signedUnits s m) one
  | _ => 0

def isWhole : Binary64 → Bool
  | .finite _ m => m.units % one == 0
  | _ => false

/-- The interchange encoding. -/
def toBits : Binary64 → UInt64
  | .finite s m =>
    let sign := if s then twoTo 63 else 0
    let word :=
      if m.significand < twoTo 52 then m.significand
      else (m.shift + 1) * twoTo 52 + (m.significand - twoTo 52)
    UInt64.ofNat (sign + word)
  | .infinite s => UInt64.ofNat ((if s then twoTo 63 else 0) + 2047 * twoTo 52)
  | .nan => UInt64.ofNat (2047 * twoTo 52 + twoTo 51)

def ofBits (bits : UInt64) : Binary64 :=
  let word := bits.toNat
  let s := twoTo 63 ≤ word
  let exponent := word / twoTo 52 % 2048
  let fraction := word % twoTo 52
  if exponent = 2047 then if fraction = 0 then .infinite s else .nan
  else
    let m :=
      if exponent = 0 then Magnitude.ofParts? fraction 0
      else Magnitude.ofParts? (fraction + twoTo 52) (exponent - 1)
    match m with
    | some m => .finite s m
    | none => .nan

/-- Powers are those of the platform, which alone of all operations is not exact before rounding. -/
def pow (x y : Binary64) : Binary64 :=
  ofBits (Float.pow (Float.ofBits x.toBits) (Float.ofBits y.toBits)).toBits

end Binary64
end Spreadsheet.Number
