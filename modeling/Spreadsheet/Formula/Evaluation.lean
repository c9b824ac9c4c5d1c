import Spreadsheet.Address.Bounds
import Spreadsheet.Formula.Basic
import Spreadsheet.Function.Apply

/-! Values of formulas. Operands and arguments are evaluated from left to right, and the first error
met is the result. -/
namespace Spreadsheet.Formula

/-- What a formula can see: the contents of cells, the bounds of the sheet, and how many digits
numbers have as text. -/
structure Scope where
  contents : Address → Option Value
  bounds : Bounds
  precision : Int

/-- Reads a cell; outside the bounds there is none, which is told of unless the number of its row is too
long. -/
def Scope.read (scope : Scope) (a : Address) : Outcome :=
  if scope.bounds.contains a then Failure.lift (Value.operand? (scope.contents a))
  else if a.isWritable then .fault (.outside a.text)
  else .error (.precision (.unwritable .writing))

/-- Reads the cells of a range row by row, up to the first error. -/
def Scope.readCells (scope : Scope) (first last : Address) :
    Except Failure (List (Option Scalar)) := do
  let found ← (Rectangle.ofCorners first last).foldCells
    (fun (found : List (Option Scalar)) a => do return (← scope.read a) :: found) []
  return found.reverse

/-! ## Operators -/

inductive ScalarKind where
  | number
  | text
  | bool
deriving DecidableEq

def scalarKind : Scalar → ScalarKind
  | .number _ => .number
  | .text _ => .text
  | .bool _ => .bool

/-- What an empty cell counts as beside a scalar. -/
def emptyLike : Scalar → Scalar
  | .number _ => .number (.int 0)
  | .text _ => .text ""
  | .bool _ => .bool false

/-- Two operands of a comparison, where an empty one takes the kind of the other. -/
def comparands : Option Scalar → Option Scalar → Scalar × Scalar
  | none, none => (.number (.int 0), .number (.int 0))
  | none, some y => (emptyLike y, y)
  | some x, none => (x, emptyLike x)
  | some x, some y => (x, y)

/-- The order of two scalars of one kind; texts are compared without regard to case. -/
def orderOf? : Scalar → Scalar → Option Ordering
  | .number n, .number m => n.compare? m
  | .text s, .text t => some (compare (Text.fold s.toList) (Text.fold t.toList))
  | .bool b, .bool c => some (compare b c)
  | _, _ => none

def compareWith (op : BinaryOp) (left right : Option Scalar) : Outcome :=
  let (x, y) := comparands left right
  let order := orderOf? x y
  match op with
  | .equal => .bool (order == some .eq)
  | .notEqual => .bool (order != some .eq)
  | op =>
    if scalarKind x ≠ scalarKind y then .fault .unordered
    else
      match op with
      | .less => .bool (order == some .lt)
      | .greater => .bool (order == some .gt)
      | .lessEqual => .bool (order == some .lt || order == some .eq)
      | _ => .bool (order == some .gt || order == some .eq)

/-- Reads both operands as numbers, the left one first. -/
def numbers (left right : Option Scalar) : Except Failure (Number × Number) := do
  let a ← Failure.lift (Scalar.toNumber left)
  let b ← Failure.lift (Scalar.toNumber right)
  return (a, b)

/-- An operation on numbers whose result has to stay in range. -/
def calculate (operation : Number → Number → Option Number) (left right : Option Scalar) :
    Outcome := do
  let (a, b) ← numbers left right
  Outcome.number (← (← Number.orOverflow (operation a b)).carryOn)

def applyBinary (precision : Int) (op : BinaryOp) (left right : Option Scalar) : Outcome :=
  match op with
  | .add => calculate Number.add? left right
  | .subtract => calculate Number.sub? left right
  | .multiply => calculate Number.mul? left right
  | .divide => do
    let (a, b) ← numbers left right
    if b.isZero then Outcome.fault .divisionByZero
    else Outcome.number (← (← Number.orOverflow (a.div? b)).carryOn)
  | .power => do
    let (a, b) ← numbers left right
    Outcome.number (← a.power b)
  | .join => do
    Outcome.text ((← Scalar.written precision left) ++ (← Scalar.written precision right))
  | op => compareWith op left right

def applyUnary (op : UnaryOp) (operand : Option Scalar) : Outcome := do
  let n ← Failure.lift (Scalar.toNumber operand)
  match op with
  | .minus => Outcome.number n.neg
  | .plus => Outcome.number n
  | .percent => Outcome.number (← Number.orOverflow (n.div? (.int 100)))

/-! ## Formulas -/

mutual

def eval (scope : Scope) : Formula → Outcome
  | .constant v => Failure.lift (Value.operand? (some v))
  | .cell a => scope.read a
  | .range _ _ => .fault .rangeAsScalar
  | .unary op x => do applyUnary op (← eval scope x)
  | .binary op x y => do
    let left ← eval scope x
    let right ← eval scope y
    applyBinary scope.precision op left right
  | .call name xs =>
    match Function.named? name with
    | none => .fault (.unknownFunction name)
    | some f =>
      if f.accepts xs.length then f.apply scope.precision (arguments scope xs)
      else .fault (.argumentCount name xs.length)

def arguments (scope : Scope) : List Formula → List Argument
  | [] => []
  | x :: xs => ⟨fun _ => eval scope x, rangeCells scope x⟩ :: arguments scope xs

/-- The cells of an argument that is a range. -/
def rangeCells (scope : Scope) : Formula → Option (Unit → Except Failure (List (Option Scalar)))
  | .range first last => some fun _ => scope.readCells first last
  | _ => none

end

/-- The value of a formula, unless a number in it has no text. What an empty cell would give is
zero. -/
def evaluate (scope : Scope) (f : Formula) : Except Number.PrecisionFault Value :=
  match eval scope f with
  | .ok none => .ok (.number (.int 0))
  | .ok (some s) => .ok (.scalar s)
  | .error failure => failure.kind.map .error

/-! ## Calls -/

mutual

/-- The calls of a formula with their counts of arguments, outer before inner, left to right. -/
def calls : Formula → List (String × Nat)
  | .constant _ | .cell _ | .range _ _ => []
  | .unary _ x => calls x
  | .binary _ x y => calls x ++ calls y
  | .call name xs => (name, xs.length) :: callsOfAll xs

def callsOfAll : List Formula → List (String × Nat)
  | [] => []
  | x :: xs => calls x ++ callsOfAll xs

end

inductive CallFault where
  | unknown (name : String)
  | argumentCount (name : String) (count : Nat)
deriving DecidableEq

namespace CallFault

def name : CallFault → String
  | .unknown name => name
  | .argumentCount name _ => name

def message : CallFault → String
  | .unknown name => (Fault.unknownFunction name).message
  | .argumentCount name count => (Fault.argumentCount name count).message

end CallFault

def callFault? (name : String) (count : Nat) : Option CallFault :=
  match Function.named? name with
  | none => some (.unknown name)
  | some f => if f.accepts count then none else some (.argumentCount name count)

/-- The first call with an unknown name or a wrong count of arguments. -/
def firstCallFault? (f : Formula) : Option CallFault :=
  f.calls.findSome? fun (name, count) => callFault? name count

end Spreadsheet.Formula
