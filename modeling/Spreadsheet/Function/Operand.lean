import Spreadsheet.Value

/-! What functions and operators work on, and arithmetic on operands. -/
namespace Spreadsheet

/-- What a part of a formula evaluates to; `none` is the content of an empty cell. -/
abbrev Outcome := Except Failure (Option Scalar)

/-- An argument of a function: its value when it stands alone, and for a range its cells. Neither is
evaluated before it is asked for. -/
structure Argument where
  value : Unit → Outcome
  cells? : Option (Unit → Except Failure (List (Option Scalar)))

/-- An evaluated argument of a function that takes ranges. -/
inductive Operand where
  | single (value : Option Scalar)
  | cells (values : List (Option Scalar))

def Failure.lift {α : Type} : Except Fault α → Except Failure α
  | .ok a => .ok a
  | .error f => .error (.fault f)

/-- The text of an operand; without one there is no value. -/
def Scalar.written (precision : Int) (x : Option Scalar) : Except Failure String :=
  (toText precision x).mapError .precision

namespace Outcome

def number (n : Number) : Outcome := .ok (some (.number n))
def text (s : String) : Outcome := .ok (some (.text s))
def bool (b : Bool) : Outcome := .ok (some (.bool b))
def fault (f : Fault) : Outcome := .error (.fault f)

end Outcome

namespace Number

/-- A result that no floating-point number can take part in ends the whole formula. -/
def orOverflow : Option Number → Except Failure Number
  | some n => .ok n
  | none => .error .overflow

/-- A number that calculations can carry on with. -/
def carryOn (n : Number) : Except Failure Number := Failure.lift n.carry

/-- More parts than these no list has an index for. -/
def maxCount : Nat := twoTo 63 - 1

/-- A count of parts, which ends the whole formula if there are too many to count. -/
def ofCount (n : Nat) : Except Failure Number :=
  if n ≤ maxCount then .ok (.int n) else .error .overflow

/-- Powers of whole numbers stay whole below `2 ^ 53`. -/
def power (base exponent : Number) : Except Failure Number :=
  if base.isZero && exponent.lt (.int 0) then .error (.fault .zeroToNegativePower)
  else
    match base.float?, exponent.float? with
    | some x, some y =>
      let z := x.pow y
      if !z.isFinite then .error (.fault .noPower)
      else
        match base, exponent with
        | .int _, .int e =>
          if 0 ≤ e ∧ z.truncate.natAbs < maxExactInt then .ok (.int z.truncate) else .ok (.float z)
        | _, _ => .ok (.float z)
    | _, _ => .error .overflow

/-- Digits beyond these on either side of the point belong to no floating-point number. -/
def maxRoundingDigits : Int := 400

/-- How many digits a decimal may have after rounding. -/
def roundingPrecision : Int := 28

/-- Rounds to a number of digits after the point, or before it if negative; a half goes away from
zero. A number with too many digits for that is left as it is. -/
def round (n : Number) (digits : Int) : Except Failure Number :=
  let digits := Max.max (-maxRoundingDigits) (Min.min digits maxRoundingDigits)
  let d := n.decimal
  if d.coefficient ≠ 0 ∧ roundingPrecision < d.pointPosition + digits then .ok n
  else
    let rounded := d.roundTo (-digits)
    if digits ≤ 0 then carryOn (.int rounded.truncate) else carryOn (.float rounded.toBinary)

end Number

namespace Operand

/-- The contents that an operand contributes. -/
def values : Operand → List (Option Scalar)
  | .single v => [v]
  | .cells vs => vs

/-- The numbers that an operand contributes: a single value has to be one, cells may be anything. -/
def foldNumbers {σ : Type} (step : σ → Number → Except Failure σ) (s : σ) :
    Operand → Except Failure σ
  | .single v => do step s (← Failure.lift (Scalar.toNumber v))
  | .cells vs => vs.foldlM (fun s v =>
      match v with
      | some (.number n) => do step s (← n.carryOn)
      | _ => .ok s) s

def foldAll {σ : Type} (step : σ → Number → Except Failure σ) (s : σ) (operands : List Operand) :
    Except Failure σ :=
  operands.foldlM (foldNumbers step) s

/-- The truth values that an operand contributes: of cells only truth values and numbers count. -/
def truths : Operand → Except Failure (List Bool)
  | .single v => do return [← Failure.lift (Scalar.toBool v)]
  | .cells vs => .ok (vs.filterMap fun
      | some (.bool b) => some b
      | some (.number n) => some (!n.isZero)
      | _ => none)

/-- All truth values among the operands, at least one. -/
def allTruths (operands : List Operand) : Except Failure (List Bool) := do
  let found ← operands.mapM truths
  match found.flatten with
  | [] => .error (.fault .noLogicalValues)
  | truths => .ok truths

end Operand
end Spreadsheet
