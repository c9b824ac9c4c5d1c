import Spreadsheet.Text.Case

/-! The functions that formulas can call: their names, how many arguments they take, and how they
take them. -/
namespace Spreadsheet

inductive Function where
  | abs
  | and
  | average
  | concat
  | count
  | counta
  | ifThen
  | ifError
  | int
  | isBlank
  | isError
  | len
  | lower
  | max
  | min
  | mod
  | not
  | or
  | power
  | product
  | round
  | sqrt
  | sum
  | trim
  | upper
deriving DecidableEq, Repr

/-- How a function takes its arguments: values alone, values and whole ranges, or unevaluated. -/
inductive Convention where
  | scalar
  | range
  | lazy
deriving DecidableEq, Repr

def Convention.name : Convention → String
  | .scalar => "scalar"
  | .range => "range"
  | .lazy => "lazy"

namespace Function

def all : List Function :=
  [.abs, .and, .average, .concat, .count, .counta, .ifThen, .ifError, .int, .isBlank, .isError,
    .len, .lower, .max, .min, .mod, .not, .or, .power, .product, .round, .sqrt, .sum, .trim, .upper]

def name : Function → String
  | .abs => "ABS"
  | .and => "AND"
  | .average => "AVERAGE"
  | .concat => "CONCAT"
  | .count => "COUNT"
  | .counta => "COUNTA"
  | .ifThen => "IF"
  | .ifError => "IFERROR"
  | .int => "INT"
  | .isBlank => "ISBLANK"
  | .isError => "ISERROR"
  | .len => "LEN"
  | .lower => "LOWER"
  | .max => "MAX"
  | .min => "MIN"
  | .mod => "MOD"
  | .not => "NOT"
  | .or => "OR"
  | .power => "POWER"
  | .product => "PRODUCT"
  | .round => "ROUND"
  | .sqrt => "SQRT"
  | .sum => "SUM"
  | .trim => "TRIM"
  | .upper => "UPPER"

def convention : Function → Convention
  | .and | .average | .concat | .count | .counta | .max | .min | .or | .product | .sum => .range
  | .ifThen | .ifError | .isError => .lazy
  | _ => .scalar

def minArguments : Function → Nat
  | .ifThen | .ifError | .mod | .power => 2
  | _ => 1

/-- The most arguments taken, none if there is no limit. -/
def maxArguments : Function → Option Nat
  | .ifThen => some 3
  | .ifError | .mod | .power | .round => some 2
  | f => if f.convention = .range then none else some 1

def accepts (f : Function) (count : Nat) : Bool :=
  decide (f.minArguments ≤ count) && f.maxArguments.all (fun most => decide (count ≤ most))

/-- Looks a function up by its name in any case. -/
def named? (name : String) : Option Function :=
  let upper := Text.upper name.toList
  all.find? fun f => f.name.toList == upper

end Function
end Spreadsheet
