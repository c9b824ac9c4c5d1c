import Spreadsheet.Function.Operand
import Spreadsheet.Function.Signature

/-! What the functions compute. Aggregates skip texts, truth values and empty cells inside a range;
an argument that stands alone has to be of the right kind. -/
namespace Spreadsheet
namespace Operand

def isNumber : Option Scalar → Bool
  | some (.number _) => true
  | _ => false

def sum (operands : List Operand) : Except Failure Number := do
  let total ← foldAll (fun s n => Number.orOverflow (s.add? n)) (.int 0) operands
  total.carryOn

def product (operands : List Operand) : Except Failure Number := do
  let total ← foldAll (fun s n => Number.orOverflow (s.mul? n)) (.int 1) operands
  total.carryOn

/-- The first number that no other precedes, zero if there is none. -/
def extreme (precedes : Number → Number → Bool) (operands : List Operand) :
    Except Failure Number := do
  let best ← foldAll (fun (s : Option Number) n =>
    .ok (match s with
      | none => some n
      | some m => if precedes n m then some n else some m)) none operands
  return best.getD (.int 0)

def average (operands : List Operand) : Except Failure Number := do
  let numbers ← foldAll (fun (s : List Number) n => .ok (n :: s)) [] operands
  if numbers.isEmpty then .error (.fault .noNumbers)
  else
    let total ← sum operands
    let mean ← Number.orOverflow (total.div? (.int numbers.length))
    mean.carryOn

def countWhere (p : Option Scalar → Bool) (operands : List Operand) : Except Failure Number :=
  Number.ofCount ((operands.flatMap values).countP p)

end Operand

namespace Function

def applyRange (precision : Int) (f : Function) (operands : List Operand) : Outcome :=
  match f with
  | .sum => do Outcome.number (← Operand.sum operands)
  | .product => do Outcome.number (← Operand.product operands)
  | .min => do Outcome.number (← Operand.extreme Number.lt operands)
  | .max => do Outcome.number (← Operand.extreme (fun n m => m.lt n) operands)
  | .average => do Outcome.number (← Operand.average operands)
  | .count => do Outcome.number (← Operand.countWhere Operand.isNumber operands)
  | .counta => do Outcome.number (← Operand.countWhere Option.isSome operands)
  | .and => do Outcome.bool ((← Operand.allTruths operands).all id)
  | .or => do Outcome.bool ((← Operand.allTruths operands).any id)
  | _ => do
    Outcome.text (String.join (← (operands.flatMap Operand.values).mapM (Scalar.written precision)))

def applyOne (precision : Int) (f : Function) (x : Option Scalar) : Outcome :=
  let number := Failure.lift (Scalar.toNumber x)
  let text := Scalar.written precision x
  match f with
  | .abs => do Outcome.number (← number).abs
  | .round => do Outcome.number (← (← number).round 0)
  | .int => do Outcome.number (← Number.carryOn (.int (← number).floor))
  | .sqrt => do
    let n ← number
    if n.lt (.int 0) then Outcome.fault .rootOfNegative
    else
      match n.float? with
      | some r => Outcome.number (.float r.sqrt)
      | none => .error .overflow
  | .not => do Outcome.bool (!(← Failure.lift (Scalar.toBool x)))
  | .isBlank => .bool x.isNone
  | .len => do Outcome.number (← Number.ofCount (← text).toList.length)
  | .upper => do Outcome.text (String.ofList (Text.upper (← text).toList))
  | .lower => do Outcome.text (String.ofList (Text.lower (← text).toList))
  | _ => do Outcome.text (String.ofList ([' '].intercalate (Text.words (← text).toList)))

/-- Functions of two values. The first one is read as a number before the second. -/
def applyTwo (f : Function) (x y : Option Scalar) : Outcome := do
  let a ← Failure.lift (Scalar.toNumber x)
  let b ← Failure.lift (Scalar.toNumber y)
  match f with
  | .round => Outcome.number (← a.round b.truncate)
  | .mod =>
    if b.isZero then Outcome.fault .divisionByZero else Outcome.number (← Number.orOverflow (a.mod? b))
  | _ => Outcome.number (← a.power b)

def applyScalar (precision : Int) (f : Function) : List (Option Scalar) → Outcome
  | [x] => applyOne precision f x
  | [x, y] => applyTwo f x y
  | values => .fault (.argumentCount f.name values.length)

/-- Functions that choose which arguments to evaluate. -/
def applyLazy (f : Function) (arguments : List Argument) : Outcome :=
  match f, arguments with
  | .ifThen, condition :: chosen :: otherwise => do
    if ← Failure.lift (Scalar.toBool (← condition.value ())) then chosen.value ()
    else
      match otherwise with
      | [] => Outcome.bool false
      | other :: _ => other.value ()
  | .ifError, tried :: fallback :: _ =>
    match tried.value () with
    | .error (.fault _) => fallback.value ()
    | outcome => outcome
  | .isError, tried :: _ =>
    match tried.value () with
    | .error (.fault _) => .bool true
    | .error failure => .error failure
    | .ok _ => .bool false
  | f, arguments => .fault (.argumentCount f.name arguments.length)

/-- A range stands for its cells, anything else for its value. -/
def operand (a : Argument) : Except Failure Operand :=
  match a.cells? with
  | some cells => (cells ()).map .cells
  | none => (a.value ()).map .single

/-- Applies a function to as many arguments as it accepts, which are evaluated from left to
right. -/
def apply (precision : Int) (f : Function) (arguments : List Argument) : Outcome :=
  match f.convention with
  | .lazy => applyLazy f arguments
  | .range => do applyRange precision f (← arguments.mapM operand)
  | .scalar => do applyScalar precision f (← arguments.mapM fun a => a.value ())

end Function
end Spreadsheet
