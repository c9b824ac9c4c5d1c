import Spreadsheet.Text.Digit
import Spreadsheet.Text.Quoted

/-! The classes of tokens in formula text. `Terminal.extent` says how many leading characters spell
a token of a class, zero if none do; what may follow a reference or a truth value is part of it. -/
namespace Spreadsheet.Formula

open Text (isAsciiDigit isAsciiLetter)

inductive Mark where
  | notEqual
  | lessEqual
  | greaterEqual
  | ampersand
  | caret
  | colon
  | comma
  | equal
  | less
  | open
  | minus
  | greater
  | percent
  | plus
  | close
  | slash
  | star
deriving DecidableEq, Repr

def Mark.spelling : Mark → String
  | .notEqual => "<>"
  | .lessEqual => "<="
  | .greaterEqual => ">="
  | .ampersand => "&"
  | .caret => "^"
  | .colon => ":"
  | .comma => ","
  | .equal => "="
  | .less => "<"
  | .open => "("
  | .minus => "-"
  | .greater => ">"
  | .percent => "%"
  | .plus => "+"
  | .close => ")"
  | .slash => "/"
  | .star => "*"

inductive Terminal where
  /-- A row and a column number, as in `R3C2`. -/
  | rowColumn
  /-- The code of an error, as in `#REF!`. -/
  | errorCode
  | bool
  /-- Letters and a row number, as in `$B$3`. -/
  | cell
  | name
  | number
  | text
  | mark (mark : Mark)
deriving DecidableEq, Repr

namespace Terminal

/-- The name of a class in the list of what was expected. -/
def description : Terminal → String
  | .rowColumn => "RC_REF"
  | .errorCode => "ERROR"
  | .bool => "BOOL"
  | .cell => "CELL_REF"
  | .name => "NAME"
  | .number => "NUMBER"
  | .text => "STRING"
  | .mark m => Text.quoted m.spelling

/-- All classes; where several match, the first one in this order is taken. -/
def all : List Terminal :=
  [.rowColumn, .errorCode, .bool, .cell, .name, .number, .text, .mark .notEqual, .mark .lessEqual,
    .mark .greaterEqual, .mark .ampersand, .mark .caret, .mark .colon, .mark .comma, .mark .equal,
    .mark .less, .mark .open, .mark .minus, .mark .greater, .mark .percent, .mark .plus,
    .mark .close, .mark .slash, .mark .star]

/-! ## Spellings -/

def isNameStart (c : Char) : Bool := isAsciiLetter c || c == '_'

def isNameRest (c : Char) : Bool := isNameStart c || isAsciiDigit c || c == '.'

/-- How many leading characters satisfy `p`. -/
def run (p : Char → Bool) (cs : List Char) : Nat := (cs.takeWhile p).length

/-- A reference or a truth value ends where neither a name nor a call goes on. -/
def endsWord : List Char → Bool
  | [] => true
  | c :: _ => !(isNameRest c || c == '(')

/-- `n` if the word of `n` characters ends there, else zero. -/
def wordExtent (cs : List Char) (n : Nat) : Nat := if endsWord (cs.drop n) then n else 0

/-- Whether a character is a case of an upper-case letter: the long s is one of `S`, and the `i`
with and without a dot are cases of `I`. -/
def isCaseOf (letter c : Char) : Bool :=
  c == letter || c == letter.toLower || (letter == 'S' && c == '\u017F') ||
    (letter == 'I' && (c == '\u0130' || c == '\u0131'))

/-- Whether a text starts with a spelling, in any case. -/
def startsWith : (spelling cs : List Char) → Bool
  | [], _ => true
  | _ :: _, [] => false
  | letter :: spelling, c :: cs => isCaseOf letter c && startsWith spelling cs

def boolExtent (cs : List Char) : Nat :=
  if startsWith ['T', 'R', 'U', 'E'] cs then wordExtent cs 4
  else if startsWith ['F', 'A', 'L', 'S', 'E'] cs then wordExtent cs 5
  else 0

/-- The codes in the order in which they are tried. -/
def errorCodes : List (List Char) :=
  ["#SYNTAX!", "#CYCLE!", "#VALUE!", "#DIV/0!", "#RANGE!", "#NAME?", "#REF!"].map String.toList

def errorExtent (cs : List Char) : Nat :=
  match errorCodes.find? (startsWith · cs) with
  | some code => code.length
  | none => 0

def rowColumnExtent : List Char → Nat
  | [] => 0
  | r :: rest =>
    let rows := run isAsciiDigit rest
    match rest.drop rows with
    | [] => 0
    | c :: tail =>
      let cols := run isAsciiDigit tail
      if (r == 'R' || r == 'r') && rows != 0 && (c == 'C' || c == 'c') && cols != 0 then
        wordExtent (r :: rest) (rows + cols + 2)
      else 0

def dollar : List Char → Nat
  | '$' :: _ => 1
  | _ => 0

def cellExtent (cs : List Char) : Nat :=
  let fixed := dollar cs
  let letters := run isAsciiLetter (cs.drop fixed)
  let rowStart := fixed + letters + dollar (cs.drop (fixed + letters))
  let digits := run isAsciiDigit (cs.drop rowStart)
  if 1 ≤ letters && letters ≤ 3 && digits != 0 then wordExtent cs (rowStart + digits) else 0

def nameExtent : List Char → Nat
  | [] => 0
  | c :: rest => if isNameStart c then run isNameRest rest + 1 else 0

/-- The exponent part of a number: `e`, an optional sign, and digits. -/
def exponentExtent : List Char → Nat
  | [] => 0
  | e :: rest =>
    if e == 'e' || e == 'E' then
      let sign :=
        match rest with
        | '+' :: _ => 1
        | '-' :: _ => 1
        | _ => 0
      let digits := run isAsciiDigit (rest.drop sign)
      if digits = 0 then 0 else digits + sign + 1
    else 0

/-- Digits with an optional point among them and an optional exponent part. -/
def numberExtent (cs : List Char) : Nat :=
  let whole := run isAsciiDigit cs
  match cs.drop whole with
  | '.' :: rest =>
    let fraction := run isAsciiDigit rest
    if whole + fraction = 0 then 0
    else whole + fraction + 1 + exponentExtent (rest.drop fraction)
  | rest => if whole = 0 then 0 else whole + exponentExtent rest

/-- How far a text in double quotation marks goes on after its first mark; `size` characters are
behind, and `pairEnd` is where it ends if no closing mark comes: at the first mark of the last
pair, zero if there was none. -/
def textExtentFrom (size pairEnd : Nat) : List Char → Nat
  | [] => pairEnd
  | '"' :: '"' :: rest => textExtentFrom (size + 2) (size + 1) rest
  | '"' :: _ => size + 1
  | _ :: rest => textExtentFrom (size + 1) pairEnd rest

def textExtent : List Char → Nat
  | '"' :: rest => textExtentFrom 1 0 rest
  | _ => 0

def markExtent (m : Mark) (cs : List Char) : Nat :=
  if m.spelling.toList.isPrefixOf cs then m.spelling.length else 0

def extent : Terminal → List Char → Nat
  | .rowColumn => rowColumnExtent
  | .errorCode => errorExtent
  | .bool => boolExtent
  | .cell => cellExtent
  | .name => nameExtent
  | .number => numberExtent
  | .text => textExtent
  | .mark m => markExtent m

/-- The first of some classes that matches at the start of a text. -/
def first? (candidates : List Terminal) (cs : List Char) : Option Terminal :=
  candidates.find? fun t => t.extent cs != 0

end Terminal

def isSpacing (c : Char) : Bool :=
  c == ' ' || c == '\t' || c == '\x0c' || c == '\r' || c == '\n'

structure Token where
  terminal : Terminal
  chars : List Char
  /-- The column in its line, counted from one. -/
  column : Nat
deriving DecidableEq

def nextColumn (column : Nat) (c : Char) : Nat := if c == '\n' then 1 else column + 1

def columnAfter (column : Nat) (cs : List Char) : Nat := cs.foldl nextColumn column

end Spreadsheet.Formula
