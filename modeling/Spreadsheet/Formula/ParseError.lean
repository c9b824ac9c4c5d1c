import Spreadsheet.Address
import Spreadsheet.Formula.Terminal
import Spreadsheet.Value

/-! Why a text is no formula. -/
namespace Spreadsheet.Formula

/-- What may come next: a token of a class, or the end of the formula. -/
inductive Expected where
  | terminal (terminal : Terminal)
  | finish
deriving DecidableEq

def Expected.description : Expected → String
  | .terminal t => t.description
  | .finish => "end of formula"

inductive ParseError where
  | noEqualSign
  /-- No token starts at a column. `shown` is the character at that column of the whole text. -/
  | unexpectedCharacter (shown : Char) (column : Nat) (expected : List Expected)
  | unexpectedToken (token : Token) (expected : List Expected)
  /-- The text of `size` characters ends too early. -/
  | unexpectedEnd (size : Nat) (expected : List Expected)
  | tooDeep
  | numberOutOfRange (token : Token)
  | numberTooLong (token : Token)
  | noAddress (fault : Address.Fault) (column : Nat)
  | indexTooLong (limit : Number.DigitLimit)
  | indexZero (token : Token)
  | unknownCode (token : Token)

namespace ParseError

def message : ParseError → String
  | .noEqualSign => "Formula must start with '='"
  | .unexpectedCharacter shown _ _ => "Unexpected character " ++ Text.quoted shown.toString
  | .unexpectedToken token _ => "Unexpected token " ++ Text.quoted (String.ofList token.chars)
  | .unexpectedEnd .. => "Unexpected end of formula"
  | .tooDeep => "Formula is nested too deeply"
  | .numberOutOfRange token => "Number out of range: " ++ String.ofList token.chars
  | .numberTooLong token => "Number out of range: " ++ String.ofList (token.chars.take 20) ++ "..."
  | .noAddress fault _ => fault.message
  | .indexTooLong limit => limit.message
  | .indexZero token =>
    "Invalid cell address: " ++ Text.quoted (String.ofList token.chars) ++
      " (rows and columns start at 1)"
  | .unknownCode token => ErrorKind.unknownCode (String.ofList token.chars)

/-- The column of the fault, counted from one, where it has one. -/
def position : ParseError → Option Nat
  | .noEqualSign => some 1
  | .unexpectedCharacter _ column _ => some column
  | .unexpectedToken token _ => some token.column
  | .unexpectedEnd size _ => some (size + 1)
  | .numberOutOfRange token | .numberTooLong token | .indexZero token => some token.column
  | .noAddress _ column => some column
  | .tooDeep | .indexTooLong _ | .unknownCode _ => none

def expectations : ParseError → List Expected
  | .noEqualSign => [.terminal (.mark .equal)]
  | .unexpectedCharacter _ _ expected | .unexpectedToken _ expected | .unexpectedEnd _ expected =>
    expected
  | _ => []

/-- The names of what was expected, in ascending order. -/
def expected (e : ParseError) : List String :=
  (e.expectations.map Expected.description).mergeSort (fun s t => decide (s ≤ t))

def text (e : ParseError) : String :=
  let place :=
    match e.position with
    | some p => s!" (at position {p})"
    | none => ""
  let wanted :=
    if e.expected.isEmpty then "" else "; expected one of: " ++ ", ".intercalate e.expected
  "Formula parse error: " ++ e.message ++ place ++ wanted

end ParseError
end Spreadsheet.Formula
