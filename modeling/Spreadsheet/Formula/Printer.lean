import Spreadsheet.Formula.Basic

/-! The canonical text of a formula: one blank around every binary operator, and parentheses only
where the tree would otherwise be read differently. -/
namespace Spreadsheet

/-- The least precedence of a left operand that needs no parentheses. -/
def BinaryOp.leftLevel : BinaryOp → Nat
  | .power => 7
  | op => op.precedence

/-- The least precedence of a right operand that needs no parentheses. -/
def BinaryOp.rightLevel : BinaryOp → Nat
  | .power => 5
  | op => op.precedence + 1

/-- The least precedence of an operand of a sign or of the percent sign that needs no
parentheses. -/
def UnaryOp.level : UnaryOp → Nat
  | .percent => 7
  | _ => 5

namespace Formula

def precedence : Formula → Nat
  | .binary op _ _ => op.precedence
  | .unary .percent _ => 7
  | .unary _ _ => 5
  | _ => 8

/-- A text between quotation marks, with every mark inside written twice. -/
def quotedText (cs : List Char) : List Char :=
  '"' :: (cs.flatMap (fun c => if c == '"' then ['"', '"'] else [c]) ++ ['"'])

def constantChars : Value → List Char
  | .error kind => kind.code.toList
  | .bool b => (boolText b).toList
  | .text s => quotedText s.toList
  | .number n => n.chars

def parenthesized (needed : Bool) (cs : List Char) : List Char :=
  if needed then '(' :: (cs ++ [')']) else cs

mutual

def chars : Formula → List Char
  | .constant v => constantChars v
  | .cell a => a.chars
  | .range a b => a.chars ++ ':' :: b.chars
  | .unary .percent x => parenthesized (x.precedence < UnaryOp.percent.level) (chars x) ++ ['%']
  | .unary op x => op.symbol.toList ++ parenthesized (x.precedence < op.level) (chars x)
  | .binary op x y =>
    parenthesized (x.precedence < op.leftLevel) (chars x) ++
      ' ' :: op.symbol.toList ++ ' ' :: parenthesized (y.precedence < op.rightLevel) (chars y)
  | .call name xs => name.toList ++ '(' :: argumentChars xs ++ [')']

def argumentChars : List Formula → List Char
  | [] => []
  | [x] => chars x
  | x :: y :: xs => chars x ++ ',' :: ' ' :: argumentChars (y :: xs)

end

def text (f : Formula) : String := String.ofList ('=' :: f.chars)

/-- Whether every row that the text contains is short enough to write. -/
def isWritable (f : Formula) : Bool := f.references.all Reference.isWritable

end Formula
end Spreadsheet
