import Spreadsheet.Data.Yaml.Fault

/-! Kinds of characters, a place in a text, and reading on from there. -/
namespace Spreadsheet.Yaml

/-! ## Characters -/

def isAllowed (c : Char) : Bool :=
  let n := c.toNat
  n == 0x09 || n == 0x0A || n == 0x0D || (0x20 ≤ n && n ≤ 0x7E) || n == 0x85 ||
    (0xA0 ≤ n && n ≤ 0xFFFD) || 0x10000 ≤ n

/-- What marks the byte order at the beginning of a text. It takes no room on its line. -/
def byteOrderMark : Char := '\uFEFF'

def isGap (c : Char) : Bool := c == ' ' || c == '\t'

def isBreak (c : Char) : Bool := c == '\n' || c == '\x85' || c == '\u2028' || c == '\u2029'

def endsLine (c : Char) : Bool := c == '\x00' || isBreak c

/-- What follows a word of a directive or a tag. -/
def endsWord (c : Char) : Bool := endsLine c || c == ' '

/-- What follows a mark that stands alone. -/
def endsMark (c : Char) : Bool := endsLine c || isGap c

def digitValue? (c : Char) : Option Nat :=
  let n := c.toNat
  if 0x30 ≤ n && n ≤ 0x39 then some (n - 0x30)
  else if 0x41 ≤ n && n ≤ 0x46 then some (n - 0x41 + 10)
  else if 0x61 ≤ n && n ≤ 0x66 then some (n - 0x61 + 10)
  else none

def hexadecimal? (cs : List Char) : Option Nat :=
  cs.foldlM (fun n c => (digitValue? c).map (n * 16 + ·)) 0

/-! ## Places -/

/-- The characters that follow, and the count of those before: in all, of lines, and on the line. -/
structure Cursor where
  rest : List Char
  index : Nat
  line : Nat
  column : Nat

namespace Cursor

def start (cs : List Char) : Cursor := ⟨cs, 0, 0, 0⟩

/-- The character so many places on. The end reads as a character that no document holds. -/
def peek (c : Cursor) (n : Nat) : Char := c.rest.getD n '\x00'

def step (c : Cursor) : Cursor :=
  match c.rest with
  | [] => c
  | x :: rest =>
    if isBreak x then ⟨rest, c.index + 1, c.line + 1, 0⟩
    else ⟨rest, c.index + 1, c.line, if x == byteOrderMark then c.column else c.column + 1⟩

def advance : (count : Nat) → Cursor → Cursor
  | 0, c => c
  | count + 1, c => advance count c.step

/-- Whether a line begins here with a mark, and nothing joined to it. -/
def isMarked (c : Cursor) (mark : Char) : Bool :=
  c.column == 0 && c.rest.take 3 == [mark, mark, mark] && endsMark (c.peek 3)

/-- Whether a line begins here that separates documents. -/
def isSeparator (c : Cursor) : Bool := c.isMarked '-' || c.isMarked '.'

end Cursor

/-! ## Reading -/

/-- Reads from a place on, unless the text is at fault. -/
abbrev Scan := StateT Cursor (Except Fault)

namespace Scan

def peek (n : Nat) : Scan Char := return (← get).peek n

def skip (count : Nat) : Scan Unit := modify (Cursor.advance count)

/-- The characters of a kind up to the first other one. -/
def takeWhile (accepts : Char → Bool) : Scan (List Char) := do
  let cs := (← get).rest.takeWhile accepts
  skip cs.length
  return cs

def skipWhile (accepts : Char → Bool) : Scan Unit := do
  let _ ← takeWhile accepts

/-- Refuses the text, unless the next character is of a kind. -/
def expect (accepts : Char → Bool) : Scan Unit := do
  if !accepts (← peek 0) then throw .token

/-- Joins what a step gives as long as it gives something, for at most so many steps. -/
def joinFor (step : Scan (Option (List Char))) : (steps : Nat) → Scan (List Char)
  | 0 => return []
  | steps + 1 => do
    match ← step with
    | none => return []
    | some cs => return cs ++ (← joinFor step steps)

/-- Joins what a step gives until it gives nothing. It has to pass a character each time. -/
def join (step : Scan (Option (List Char))) : Scan (List Char) := do
  joinFor step ((← get).rest.length + 1)

/-- Passes a break, if there is one, which counts as a line feed or as itself. -/
def lineBreak : Scan (List Char) := do
  let c ← peek 0
  if c == '\n' || c == '\x85' then do
    skip 1
    return ['\n']
  else if isBreak c then do
    skip 1
    return [c]
  else return []

def comment : Scan Unit := do
  skipWhile (· == ' ')
  if (← peek 0) == '#' then skipWhile fun c => !endsLine c

/-- Passes the rest of a line that holds nothing more. -/
def vacantLine : Scan Unit := do
  comment
  expect endsLine
  let _ ← lineBreak

end Scan
end Spreadsheet.Yaml
