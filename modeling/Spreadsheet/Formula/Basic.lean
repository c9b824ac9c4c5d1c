import Spreadsheet.Address.Rectangle
import Spreadsheet.Value

/-! Formulas as trees. Parentheses leave no trace in a tree. -/
namespace Spreadsheet

inductive UnaryOp where
  | minus
  | plus
  | percent
deriving DecidableEq, Repr

def UnaryOp.symbol : UnaryOp → String
  | .minus => "-"
  | .plus => "+"
  | .percent => "%"

inductive BinaryOp where
  | equal
  | notEqual
  | less
  | greater
  | lessEqual
  | greaterEqual
  | join
  | add
  | subtract
  | multiply
  | divide
  | power
deriving DecidableEq, Repr

namespace BinaryOp

def symbol : BinaryOp → String
  | .equal => "="
  | .notEqual => "<>"
  | .less => "<"
  | .greater => ">"
  | .lessEqual => "<="
  | .greaterEqual => ">="
  | .join => "&"
  | .add => "+"
  | .subtract => "-"
  | .multiply => "*"
  | .divide => "/"
  | .power => "^"

/-- How tightly an operator binds. Signs bind at 5 and the percent sign at 7. -/
def precedence : BinaryOp → Nat
  | .equal | .notEqual | .less | .greater | .lessEqual | .greaterEqual => 1
  | .join => 2
  | .add | .subtract => 3
  | .multiply | .divide => 4
  | .power => 6

end BinaryOp

inductive Formula where
  | constant (value : Value)
  | cell (address : Address)
  /-- A range keeps its corners as they were written. -/
  | range (first last : Address)
  | unary (op : UnaryOp) (operand : Formula)
  | binary (op : BinaryOp) (left right : Formula)
  | call (name : String) (arguments : List Formula)

namespace Formula

instance : Inhabited Formula := ⟨.constant (.bool false)⟩

mutual

def beq : Formula → Formula → Bool
  | .constant v, .constant w => v = w
  | .cell a, .cell b => a = b
  | .range a b, .range c d => a = c && b = d
  | .unary o x, .unary p y => o = p && beq x y
  | .binary o x y, .binary p z w => o = p && (beq x z && beq y w)
  | .call f xs, .call g ys => f = g && beqAll xs ys
  | _, _ => false

def beqAll : List Formula → List Formula → Bool
  | [], [] => true
  | x :: xs, y :: ys => beq x y && beqAll xs ys
  | _, _ => false

end

mutual

theorem beq_iff (x y : Formula) : beq x y = true ↔ x = y := by
  match x with
  | .constant v => cases y <;> simp [beq]
  | .cell a => cases y <;> simp [beq]
  | .range a b => cases y <;> simp [beq]
  | .unary o x =>
    cases y with
    | unary p y => simp [beq, beq_iff x y]
    | _ => simp [beq]
  | .binary o x z =>
    cases y with
    | binary p y w => simp [beq, beq_iff x y, beq_iff z w]
    | _ => simp [beq]
  | .call f xs =>
    cases y with
    | call g ys => simp [beq, beqAll_iff xs ys]
    | _ => simp [beq]

theorem beqAll_iff (xs ys : List Formula) : beqAll xs ys = true ↔ xs = ys := by
  match xs with
  | [] => cases ys <;> simp [beqAll]
  | x :: xs =>
    cases ys with
    | nil => simp [beqAll]
    | cons y ys => simp [beqAll, beq_iff x y, beqAll_iff xs ys]

end

instance : DecidableEq Formula := fun x y => decidable_of_iff _ (beq_iff x y)

/-! ## References -/

inductive Reference where
  | cell (address : Address)
  | range (first last : Address)
deriving DecidableEq

mutual

/-- The references of a formula from left to right, as often as they occur. -/
def references : Formula → List Reference
  | .constant _ => []
  | .cell a => [.cell a]
  | .range a b => [.range a b]
  | .unary _ x => references x
  | .binary _ x y => references x ++ references y
  | .call _ xs => referencesAll xs

def referencesAll : List Formula → List Reference
  | [] => []
  | x :: xs => references x ++ referencesAll xs

end

namespace Reference

def text : Reference → String
  | .cell a => a.text
  | .range a b => a.text ++ ":" ++ b.text

/-- Whether the rows that a reference writes are short enough. -/
def isWritable : Reference → Bool
  | .cell a => a.isWritable
  | .range a b => a.isWritable && b.isWritable

end Reference
end Formula
end Spreadsheet
