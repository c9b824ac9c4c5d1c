import Spreadsheet.Formula.Basic
import Spreadsheet.Formula.ParseError

/-! Formulas as they stand in the text, with tokens at the leaves, and the trees they denote. The
leaves are read from left to right, so the leftmost faulty one is reported. -/
namespace Spreadsheet.Formula

open Number (natOfDigits)

inductive Draft where
  | leaf (token : Token)
  | range (first last : Token)
  | unary (op : UnaryOp) (operand : Draft)
  | binary (op : BinaryOp) (left right : Draft)
  | call (name : Token) (arguments : List Draft)

namespace Draft

/-- A token with a point or an exponent is a float, any other number a whole number. -/
def readNumber (token : Token) : Except ParseError Value :=
  if token.chars.any fun c => c == '.' || c == 'e' || c == 'E' then
    match (Number.Decimal.ofChars? token.chars).map Number.Decimal.toBinary with
    | some x => if x.isFinite then .ok (.number (.float x)) else .error (.numberOutOfRange token)
    | none => .error (.numberOutOfRange token)
  else
    match natOfDigits token.chars with
    | .ok n => .ok (.number (.int n))
    | .error _ => .error (.numberTooLong token)

/-- The characters between quotation marks, where two marks stand for one. -/
def unquoted : List Char → List Char
  | '"' :: '"' :: rest => '"' :: unquoted rest
  | c :: rest => c :: unquoted rest
  | [] => []

def readText (token : Token) : Value :=
  .text (String.ofList (unquoted (token.chars.drop 1).dropLast))

def readBool (token : Token) : Value := .bool (Text.upper token.chars = ['T', 'R', 'U', 'E'])

def readErrorCode (token : Token) : Except ParseError Value :=
  match ErrorKind.ofCode? (String.ofList token.chars) with
  | some kind => .ok (.error kind)
  | none => .error (.unknownCode token)

/-- The numbers of row and column in `R3C2`. -/
def indices (chars : List Char) : List Char × List Char :=
  let body := chars.drop 1
  (body.takeWhile Text.isAsciiDigit, (body.dropWhile Text.isAsciiDigit).drop 1)

def readRowColumn (token : Token) : Except ParseError Address :=
  let (rowDigits, colDigits) := indices token.chars
  match natOfDigits rowDigits, natOfDigits colDigits with
  | .error limit, _ => .error (.indexTooLong limit)
  | _, .error limit => .error (.indexTooLong limit)
  | .ok row, .ok col =>
    if row < 1 ∨ col < 1 then .error (.indexZero token) else .ok ⟨row - 1, col - 1⟩

def readCell (token : Token) : Except ParseError Address :=
  match Address.ofText? (String.ofList token.chars) with
  | .ok a => .ok a
  | .error fault => .error (.noAddress fault token.column)

def readAddress (token : Token) : Except ParseError Address :=
  match token.terminal with
  | .rowColumn => readRowColumn token
  | _ => readCell token

def readLeaf (token : Token) : Except ParseError Formula :=
  match token.terminal with
  | .number => (readNumber token).map .constant
  | .text => .ok (.constant (readText token))
  | .bool => .ok (.constant (readBool token))
  | .errorCode => (readErrorCode token).map .constant
  | _ => (readAddress token).map .cell

/-- Trees of this height or more are refused. -/
def maxHeight : Nat := 2000

mutual

/-- The tree of a draft that stands `depth` levels below the root. -/
def resolveAt (depth : Nat) : Draft → Except ParseError Formula
  | .leaf token => if maxHeight ≤ depth + 1 then .error .tooDeep else readLeaf token
  | .range first last =>
    if maxHeight ≤ depth + 1 then .error .tooDeep
    else do return .range (← readAddress first) (← readAddress last)
  | .unary op operand =>
    if maxHeight ≤ depth + 1 then .error .tooDeep
    else do return .unary op (← resolveAt (depth + 1) operand)
  | .binary op left right =>
    if maxHeight ≤ depth + 1 then .error .tooDeep
    else do return .binary op (← resolveAt (depth + 1) left) (← resolveAt (depth + 1) right)
  | .call name arguments =>
    if maxHeight ≤ depth + 1 then .error .tooDeep
    else do
      return .call (String.ofList (Text.upper name.chars)) (← resolveAll (depth + 1) arguments)

def resolveAll (depth : Nat) : List Draft → Except ParseError (List Formula)
  | [] => .ok []
  | draft :: drafts => do return (← resolveAt depth draft) :: (← resolveAll depth drafts)

end

def resolve (draft : Draft) : Except ParseError Formula := draft.resolveAt 0

end Draft
end Spreadsheet.Formula
