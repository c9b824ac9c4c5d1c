import Spreadsheet.Data.Yaml.Token

/-! Texts of scalars: between quotation marks, in a block of lines, or plain. A break between two lines
reads as a blank, and each further one as itself. -/
namespace Spreadsheet.Yaml.Scan

/-- What a break and the empty lines after it stand for. -/
def folded (lineBreak breaks : List Char) : List Char :=
  if lineBreak != ['\n'] then lineBreak ++ breaks else if breaks.isEmpty then [' '] else breaks

/-! ## Quotation marks -/

/-- The characters that letters after a backslash stand for. -/
def escapes : List (Char × Char) :=
  [('0', '\x00'), ('a', '\x07'), ('b', '\x08'), ('t', '\t'), ('\t', '\t'), ('n', '\n'), ('v', '\x0b'),
    ('f', '\x0c'), ('r', '\r'), ('e', '\x1b'), (' ', ' '), ('"', '"'), ('\\', '\\'), ('/', '/'),
    ('N', '\x85'), ('_', '\xa0'), ('L', '\u2028'), ('P', '\u2029')]

/-- The counts of hexadecimal digits that follow letters after a backslash. -/
def escapeLengths : List (Char × Nat) := [('x', 2), ('u', 4), ('U', 8)]

/-- The character of a number. Numbers kept for pairs of units have none of their own. -/
def charOf (n : Nat) : Except Fault Char :=
  if n < 0x110000 then .ok (if n < 0xD800 ∨ 0xDFFF < n then Char.ofNat n else '\uFFFD')
  else if n < 0x80000000 then .error .noCodePoint
  else .error .tooGreat

/-- An empty line between two lines in quotation marks. Documents do not end there. -/
def quotedBreak : Scan (Option (List Char)) := do
  if (← get).isSeparator then throw .token
  skipWhile isGap
  if isBreak (← peek 0) then return some (← lineBreak) else return none

/-- What stands for a character after a backslash; none for a break. -/
def escape : Scan (List Char) := do
  let c ← peek 1
  match escapes.lookup c, escapeLengths.lookup c with
  | some d, _ => do
    skip 2
    return [d]
  | none, some length => do
    skip 2
    match hexadecimal? (← (List.range length).mapM peek) with
    | none => throw .token
    | some n =>
      let d ← charOf n
      skip length
      return [d]
  | none, none => do
    skip 1
    expect isBreak
    let _ ← lineBreak
    join quotedBreak

/-- The next characters other than blanks and breaks. -/
def quotedPiece (double : Bool) : Scan (Option (List Char)) := do
  let cs ← takeWhile fun c => !endsMark c && c != '\'' && c != '"' && c != '\\'
  let c ← peek 0
  if !double && c == '\'' && (← peek 1) == '\'' then do
    skip 2
    return some (cs ++ ['\''])
  else if (double && c == '\'') || (!double && (c == '"' || c == '\\')) then do
    skip 1
    return some (cs ++ [c])
  else if double && c == '\\' then
    return some (cs ++ (← escape))
  else
    return if cs.isEmpty then none else some cs

/-- Blanks, or breaks with the blanks around them. -/
def quotedGap : Scan (List Char) := do
  let blanks ← takeWhile isGap
  let c ← peek 0
  if c == '\x00' then throw .token
  else if isBreak c then return folded (← lineBreak) (← join quotedBreak)
  else return blanks

def quoted (double : Bool) : Scan String := do
  let mark := if double then '"' else '\''
  skip 1
  let first ← join (quotedPiece double)
  let rest ← join do
    if (← peek 0) == mark then return none
    return some ((← quotedGap) ++ (← join (quotedPiece double)))
  skip 1
  return String.ofList (first ++ rest)

/-! ## Blocks -/

/-- What becomes of the breaks at the end of a block. -/
inductive Chomping where
  | drop
  | one
  | keep
deriving DecidableEq

/-- A sign tells what becomes of the last breaks. -/
def chomping? : Scan (Option Chomping) := do
  let c ← peek 0
  if c == '+' || c == '-' then do
    skip 1
    return some (if c == '+' then .keep else .drop)
  else return none

/-- A digit tells the indentation. -/
def indentation? : Scan (Option Nat) := do
  let c ← peek 0
  if Text.isAsciiDigit c then do
    if c == '0' then throw .token
    skip 1
    return digitValue? c
  else return none

/-- A sign and a digit in either order. -/
def blockMarks : Scan (Chomping × Option Nat) := do
  match ← chomping? with
  | some chomping => return (chomping, ← indentation?)
  | none =>
    match ← indentation? with
    | none => return (.one, none)
    | some n => return ((← chomping?).getD .one, some n)

def column : Scan Nat := return (← get).column

/-- Passes blanks up to a column. -/
def skipTo (margin : Nat) : Scan Unit := do
  let blanks := (← get).rest.takeWhile (· == ' ')
  skip (min blanks.length (margin - (← column)))

/-- Breaks of empty lines with no more blanks than a block is indented by. -/
def blockBreaks (margin : Nat) : Scan (List Char) := do
  skipTo margin
  join do
    let cs ← lineBreak
    if cs.isEmpty then return none
    skipTo margin
    return some cs

/-- Breaks of all empty lines, and the column that the deepest of the blanks around them reaches. -/
def leadingBreaks (deepest : Nat) : (steps : Nat) → Scan (Nat × List Char)
  | 0 => return (deepest, [])
  | steps + 1 => do
    skipWhile (· == ' ')
    let deepest := max deepest (← column)
    let cs ← lineBreak
    if cs.isEmpty then return (deepest, [])
    let (deepest, rest) ← leadingBreaks deepest steps
    return (deepest, cs ++ rest)

/-- Lines of a block with the breaks before them; then the breaks after the last one. -/
def blockLines (fold : Bool) (margin : Nat) (breaks : List Char) :
    (steps : Nat) → Scan (List Char × List Char × List Char)
  | 0 => return ([], [], breaks)
  | steps + 1 => do
    let starts : Scan Bool := return (← column) == margin && (← peek 0) != '\x00'
    if !(← starts) then return ([], [], breaks)
    let deeper := isGap (← peek 0)
    let cs ← takeWhile fun c => !endsLine c
    let last ← lineBreak
    let after ← blockBreaks margin
    if !(← starts) then return (breaks ++ cs, last, after)
    let between :=
      if fold && last == ['\n'] && !deeper && !isGap (← peek 0) then
        if after.isEmpty then [' '] else []
      else last
    let (rest, last, after) ← blockLines fold margin after steps
    return (breaks ++ cs ++ between ++ rest, last, after)

/-- The lines of a block that is deeper than `margin`, or begins there. If they are folded, lines read
as one text, except where one of them is indented further. -/
def block (fold : Bool) (margin : Nat) : Scan String := do
  skip 1
  let (chomping, indentation) ← blockMarks
  expect endsWord
  vacantLine
  let least := max margin 1
  let steps := (← get).rest.length + 1
  let (inner, breaks) ←
    match indentation with
    | some n => do
      let inner := least + n - 1
      pure (inner, ← blockBreaks inner)
    | none => do
      let (deepest, breaks) ← leadingBreaks 0 steps
      pure (max least deepest, breaks)
  let (cs, last, after) ← blockLines fold inner breaks steps
  let rest :=
    match chomping with
    | .drop => []
    | .one => last
    | .keep => last ++ after
  return String.ofList (cs ++ rest)

/-! ## Plain text -/

def isBracket (c : Char) : Bool := c == '[' || c == ']' || c == '\x7b' || c == '\x7d'

/-- Whether a plain scalar ends at the first of these characters: between brackets also at a comma, a
question mark or a bracket, and anywhere at a colon that stands alone. -/
def endsPlain (inBrackets : Bool) (cs : List Char) : Bool :=
  let c := cs.headD '\x00'
  let next := (cs.drop 1).headD '\x00'
  endsMark c || (c == ':' && (endsMark next || (inBrackets && (next == ',' || isBracket next)))) ||
    (inBrackets && (c == ',' || c == '?' || isBracket c))

def plainChars (inBrackets : Bool) : List Char → List Char
  | [] => []
  | c :: rest => if endsPlain inBrackets (c :: rest) then [] else c :: plainChars inBrackets rest

/-- Passes the breaks of empty lines, up to a line that separates documents. -/
def plainBreak : Scan (Option (List Char)) := do
  if (← get).isSeparator then return none
  skipWhile (· == ' ')
  let cs ← lineBreak
  return if cs.isEmpty then none else some cs

/-- What stands between two words: blanks, or breaks unless the document ends there; and whether there
are breaks. Nothing stands there if no word can follow. -/
def plainGap : Scan (List Char × Bool) := do
  let blanks ← takeWhile (· == ' ')
  if !isBreak (← peek 0) then return (blanks, false)
  let last ← lineBreak
  let breaks ← join plainBreak
  return (if (← get).isSeparator then [] else folded last breaks, true)

/-- Words with the gaps before them, where lines other than the first begin at `margin` at least; and
whether there are breaks after the last word. The first gap is read already. -/
def plainWords (inBrackets : Bool) (margin : Nat) (gap : List Char × Bool) :
    (steps : Nat) → Scan (List Char × Bool)
  | 0 => return ([], gap.2)
  | steps + 1 => do
    let cs := plainChars inBrackets (← get).rest
    if (← peek 0) == '#' || cs.isEmpty then return ([], gap.2)
    skip cs.length
    let next ← plainGap
    if next.1.isEmpty || (← peek 0) == '#' || (!inBrackets && (← column) < margin) then
      return (gap.1 ++ cs, next.2)
    let (rest, broken) ← plainWords inBrackets margin next steps
    return (gap.1 ++ cs ++ rest, broken)

/-- A plain scalar, and whether there are breaks after it. -/
def plain (inBrackets : Bool) (margin : Nat) : Scan (String × Bool) := do
  let (cs, broken) ← plainWords inBrackets margin ([], false) ((← get).rest.length + 1)
  return (String.ofList cs, broken)

end Spreadsheet.Yaml.Scan
