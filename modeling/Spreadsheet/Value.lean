import Spreadsheet.Number.Basic
import Spreadsheet.Text.Blank
import Spreadsheet.Text.Case
import Spreadsheet.Text.Quoted

/-! What cells hold, and how it is read as a number, a text or a truth value. -/
namespace Spreadsheet

inductive ErrorKind where
  | malformed
  | cycle
  | typeMismatch
  | divideByZero
  | invalidRange
  | unknownFunction
  | refMissing
deriving DecidableEq, Repr

namespace ErrorKind

def all : List ErrorKind :=
  [.malformed, .cycle, .typeMismatch, .divideByZero, .invalidRange, .unknownFunction, .refMissing]

def name : ErrorKind → String
  | .malformed => "Syntax"
  | .cycle => "Cycle"
  | .typeMismatch => "TypeMismatch"
  | .divideByZero => "DivideByZero"
  | .invalidRange => "InvalidRange"
  | .unknownFunction => "UnknownFunction"
  | .refMissing => "RefMissing"

/-- The code that a cell shows and a formula may contain. -/
def code : ErrorKind → String
  | .malformed => "#SYNTAX!"
  | .cycle => "#CYCLE!"
  | .typeMismatch => "#VALUE!"
  | .divideByZero => "#DIV/0!"
  | .invalidRange => "#RANGE!"
  | .unknownFunction => "#NAME?"
  | .refMissing => "#REF!"

/-- Reads a code in any case, with blanks around it. -/
def ofCode? (s : String) : Option ErrorKind :=
  let upper := Text.upper (Text.trim s.toList)
  all.find? fun kind => kind.code.toList == upper

def unknownCode (s : String) : String := "Unknown error code: " ++ Text.quoted s

end ErrorKind

inductive Scalar where
  | number (value : Number)
  | text (value : String)
  | bool (value : Bool)
deriving DecidableEq

def Scalar.kindName : Scalar → String
  | .number (.int _) => "int"
  | .number (.float _) => "float"
  | .text _ => "str"
  | .bool _ => "bool"

/-- Contents of an occupied cell. An empty cell is the `none` of `Option Value`. -/
inductive Value where
  | scalar (value : Scalar)
  | error (kind : ErrorKind)
deriving DecidableEq

namespace Value

@[match_pattern] abbrev number (n : Number) : Value := .scalar (.number n)
@[match_pattern] abbrev text (s : String) : Value := .scalar (.text s)
@[match_pattern] abbrev bool (b : Bool) : Value := .scalar (.bool b)

def isError : Value → Bool
  | .error _ => true
  | .scalar _ => false

end Value

def boolText (b : Bool) : String := if b then "TRUE" else "FALSE"

/-- The truth value that a text spells, in any case. -/
def boolOfText? (s : String) : Option Bool :=
  let upper := Text.upper s.toList
  if upper = ['T', 'R', 'U', 'E'] then some true
  else if upper = ['F', 'A', 'L', 'S', 'E'] then some false
  else none

/-! ## Faults -/

inductive Fault where
  /-- A cell or a constant that was read holds an error. -/
  | read (kind : ErrorKind)
  | notNumber (found : Scalar)
  | notBool (found : String)
  | outOfRange
  | divisionByZero
  | zeroToNegativePower
  | noPower
  | rangeAsScalar
  | outside (address : String)
  | unknownFunction (name : String)
  | argumentCount (name : String) (count : Nat)
  | unordered
  | noLogicalValues
  | noNumbers
  | rootOfNegative
deriving DecidableEq

namespace Fault

def kind : Fault → ErrorKind
  | .read kind => kind
  | .divisionByZero | .zeroToNegativePower | .noNumbers => .divideByZero
  | .rangeAsScalar => .invalidRange
  | .outside _ => .refMissing
  | .unknownFunction _ => .unknownFunction
  | _ => .typeMismatch

def message : Fault → String
  | .read kind => kind.name
  | .notNumber found => "Expected a number, got " ++ found.kindName
  | .notBool found => "Expected a boolean, got " ++ Text.quoted found
  | .outOfRange => "Numeric overflow"
  | .divisionByZero => "Division by zero in formula"
  | .zeroToNegativePower => "Zero raised to a negative power"
  | .noPower => "math range error"
  | .rangeAsScalar => "Range used where a single value is expected"
  | .outside address => address ++ " is outside the grid"
  | .unknownFunction name => "Unknown function: " ++ Text.quoted name
  | .argumentCount name count => s!"{name} does not take {count} argument(s)"
  | .unordered => "Cannot order values of different types"
  | .noLogicalValues => "No logical values"
  | .noNumbers => "AVERAGE of no numbers"
  | .rootOfNegative => "SQRT of a negative number"

end Fault

/-- How a calculation ends without a value. Functions about errors can catch a fault; anything else
ends the whole formula. -/
inductive Failure where
  | fault (fault : Fault)
  | overflow
  /-- A number has no text of the precision asked for, or is too long for any. -/
  | precision (fault : Number.PrecisionFault)
deriving DecidableEq

/-- The error that a failure leaves as the value of a formula. A number without a text leaves no value
at all. -/
def Failure.kind : Failure → Except Number.PrecisionFault ErrorKind
  | .fault f => .ok f.kind
  | .overflow => .ok .typeMismatch
  | .precision f => .error f

/-! ## Reading values -/

/-- A value as an operand: an error is a fault, an empty cell an operand of its own. -/
def Value.operand? : Option Value → Except Fault (Option Scalar)
  | none => .ok none
  | some (.scalar s) => .ok (some s)
  | some (.error kind) => .error (.read kind)

def Number.carry (n : Number) : Except Fault Number :=
  match n.carried? with
  | some m => .ok m
  | none => .error .outOfRange

namespace Scalar

/-- A number stands for itself and an empty operand for zero; nothing else is a number. -/
def toNumber : Option Scalar → Except Fault Number
  | none => .ok (.int 0)
  | some (.number n) => n.carry
  | some s => .error (.notNumber s)

def toText (precision : Int) : Option Scalar → Except Number.PrecisionFault String
  | none => .ok ""
  | some (.number n) => (n.display precision).map String.ofList
  | some (.text s) => .ok s
  | some (.bool b) => .ok (boolText b)

/-- Any number but zero is true, and so is the text `TRUE`. -/
def toBool : Option Scalar → Except Fault Bool
  | none => .ok false
  | some (.number n) => .ok (!n.isZero)
  | some (.bool b) => .ok b
  | some (.text s) =>
    match boolOfText? s with
    | some b => .ok b
    | none => .error (.notBool s)

end Scalar

def Value.display (precision : Int) : Option Value → Except Number.PrecisionFault String
  | none => .ok ""
  | some (.error kind) => .ok kind.code
  | some (.scalar s) => Scalar.toText precision (some s)

/-- A text without underscores that spells a number. -/
def numberOfText? (cs : List Char) : Option Number :=
  if cs.contains '_' then none
  else
    match Number.int? cs with
    | some i => some (.int i)
    | none =>
      match (Number.Decimal.ofChars? cs).map Number.Decimal.toBinary with
      | some x => if x.isFinite then some (.float x) else none
      | none => none

/-- Cell text other than a formula: a truth value, a number, or the text itself. -/
def Scalar.ofText (s : String) : Scalar :=
  let trimmed := Text.trim s.toList
  match boolOfText? (String.ofList trimmed) with
  | some b => .bool b
  | none =>
    match numberOfText? trimmed with
    | some n => .number n
    | none => .text s

end Spreadsheet
