import Spreadsheet.Data.Datum

/-! Data as JSON text. Written text is ASCII: other characters are escaped in units of 16 bits. -/
namespace Spreadsheet.Json

open Number (Binary64 DigitLimit)

/-! ## Writing -/

def unitEscape (n : Nat) : List Char := '\\' :: 'u' :: Text.hex 4 n

/-- A character inside a text. Beyond 16 bits it is a pair of surrogates. -/
def escapedChar (c : Char) : List Char :=
  if c == '"' then ['\\', '"']
  else if c == '\\' then ['\\', '\\']
  else if c == '\n' then ['\\', 'n']
  else if c == '\r' then ['\\', 'r']
  else if c == '\t' then ['\\', 't']
  else if c == '\x0c' then ['\\', 'f']
  else if c == '\x08' then ['\\', 'b']
  else if 0x20 ≤ c.toNat && c.toNat ≤ 0x7E then [c]
  else if c.toNat < 0x10000 then unitEscape c.toNat
  else
    unitEscape (0xD800 + (c.toNat - 0x10000) / 0x400) ++
      unitEscape (0xDC00 + (c.toNat - 0x10000) % 0x400)

def textChars (s : String) : List Char := '"' :: (s.toList.flatMap escapedChar ++ ['"'])

def floatChars : Binary64 → List Char
  | .nan => ['N', 'a', 'N']
  | .infinite negative =>
    (if negative then ['-'] else []) ++ ['I', 'n', 'f', 'i', 'n', 'i', 't', 'y']
  | x => x.chars

/-- What stands between the items of a list or a mapping. -/
structure Style where
  opening : List Char
  /-- After the comma between two items. -/
  between : List Char
  closing : List Char

def Style.line : Style := ⟨[], [' '], []⟩

/-- An item a line, two blanks deeper than the brackets, which are `depth` levels deep. -/
def Style.block (depth : Nat) : Style :=
  let inner := '\n' :: List.replicate (2 * (depth + 1)) ' '
  ⟨inner, inner, '\n' :: List.replicate (2 * depth) ' '⟩

/-- Puts items between brackets; nothing stands between the brackets of an empty list. -/
def bracketed (style : Style) (left right : Char) : List (List Char) → List Char
  | [] => [left, right]
  | items =>
    left :: (style.opening ++ (',' :: style.between).intercalate items ++ style.closing ++ [right])

mutual

/-- The text of a datum whose brackets at each depth are written in a style. -/
def chars (style : Nat → Style) (depth : Nat) : Datum → List Char
  | .null => ['n', 'u', 'l', 'l']
  | .bool b => if b then ['t', 'r', 'u', 'e'] else ['f', 'a', 'l', 's', 'e']
  | .int i => (toString i).toList
  | .float x => floatChars x
  | .text s => textChars s
  | .list items => bracketed (style depth) '[' ']' (itemChars style (depth + 1) items)
  | .mapping fields => bracketed (style depth) '\x7b' '\x7d' (fieldChars style (depth + 1) fields)

def itemChars (style : Nat → Style) (depth : Nat) : List Datum → List (List Char)
  | [] => []
  | item :: items => chars style depth item :: itemChars style depth items

def fieldChars (style : Nat → Style) (depth : Nat) : List (String × Datum) → List (List Char)
  | [] => []
  | (key, value) :: fields =>
    (textChars key ++ ':' :: ' ' :: chars style depth value) :: fieldChars style depth fields

end

mutual

/-- Whether a datum has a text: its whole numbers have to be short enough to write. -/
def hasText : Datum → Bool
  | .int i => Number.isWritable i
  | .list items => haveTexts items
  | .mapping fields => fieldsHaveTexts fields
  | _ => true

def haveTexts : List Datum → Bool
  | [] => true
  | item :: items => hasText item && haveTexts items

def fieldsHaveTexts : List (String × Datum) → Bool
  | [] => true
  | (_, value) :: fields => hasText value && fieldsHaveTexts fields

end

def line (d : Datum) : String := String.ofList (chars (fun _ => .line) 0 d)

/-- The text of a datum with an item a line. -/
def block (d : Datum) : String := String.ofList (chars .block 0 d)

mutual

/-- The same datum with the keys of all its mappings in ascending order. -/
def sorted : Datum → Datum
  | .list items => .list (sortedItems items)
  | .mapping fields =>
    .mapping ((sortedFields fields).mergeSort fun f g => decide (f.1 ≤ g.1))
  | d => d

def sortedItems : List Datum → List Datum
  | [] => []
  | item :: items => sorted item :: sortedItems items

def sortedFields : List (String × Datum) → List (String × Datum)
  | [] => []
  | (key, value) :: fields => (key, sorted value) :: sortedFields fields

end

/-! ## Reading -/

inductive Fault where
  | malformed
  | tooLong (limit : DigitLimit)
deriving DecidableEq

/-- A part that was read and the characters after it. -/
abbrev Result (α : Type) := Except Fault (α × List Char)

def isSpace (c : Char) : Bool := c == ' ' || c == '\t' || c == '\n' || c == '\r'

def skip (cs : List Char) : List Char := cs.dropWhile isSpace

def hexValue? (c : Char) : Option Nat :=
  let n := c.toNat
  if 0x30 ≤ n && n ≤ 0x39 then some (n - 0x30)
  else if 0x41 ≤ n && n ≤ 0x46 then some (n - 0x41 + 10)
  else if 0x61 ≤ n && n ≤ 0x66 then some (n - 0x61 + 10)
  else none

def unit? : List Char → Option (Nat × List Char)
  | a :: b :: c :: d :: rest => do
    return ((((← hexValue? a) * 16 + (← hexValue? b)) * 16 + (← hexValue? c)) * 16 +
      (← hexValue? d), rest)
  | _ => none

/-- The second half of a pair of surrogates. -/
def lowSurrogate? : List Char → Option (Nat × List Char)
  | '\\' :: 'u' :: rest =>
    match unit? rest with
    | some (n, rest) => if 0xDC00 ≤ n && n ≤ 0xDFFF then some (n, rest) else none
    | none => none
  | _ => none

/-- An escaped unit as a character. A surrogate without its other half stands for no character and
becomes the replacement character. -/
def unitChar (n : Nat) (rest : List Char) : Char × List Char :=
  if 0xD800 ≤ n && n ≤ 0xDBFF then
    match lowSurrogate? rest with
    | some (m, rest) => (Char.ofNat (0x10000 + (n - 0xD800) * 0x400 + (m - 0xDC00)), rest)
    | none => ('\uFFFD', rest)
  else if 0xDC00 ≤ n && n ≤ 0xDFFF then ('\uFFFD', rest)
  else (Char.ofNat n, rest)

def shortEscape? (c : Char) : Option Char :=
  [('"', '"'), ('\\', '\\'), ('/', '/'), ('b', '\x08'), ('f', '\x0c'), ('n', '\n'), ('r', '\r'),
    ('t', '\t')].lookup c

/-- The text up to the closing mark. `read` holds the characters so far, the last one first. Each step
takes one of `budget`, which starts as all the characters there are. -/
def readText : (budget read : List Char) → List Char → Result String
  | [], _, _ => .error .malformed
  | _ :: _, _, [] => .error .malformed
  | _ :: budget, read, c :: rest =>
    if c == '"' then .ok (String.ofList read.reverse, rest)
    else if c == '\\' then
      match rest with
      | [] => .error .malformed
      | e :: rest =>
        if e == 'u' then
          match unit? rest with
          | none => .error .malformed
          | some (n, rest) => readText budget ((unitChar n rest).1 :: read) (unitChar n rest).2
        else
          match shortEscape? e with
          | none => .error .malformed
          | some c => readText budget (c :: read) rest
    else if c.toNat < 0x20 then .error .malformed
    else readText budget (c :: read) rest

def fractionPart : List Char → List Char × List Char
  | '.' :: rest =>
    let digits := rest.takeWhile Text.isAsciiDigit
    if digits.isEmpty then ([], '.' :: rest) else ('.' :: digits, rest.dropWhile Text.isAsciiDigit)
  | cs => ([], cs)

def signPart : List Char → List Char × List Char
  | '+' :: rest => (['+'], rest)
  | '-' :: rest => (['-'], rest)
  | cs => ([], cs)

def exponentPart : List Char → List Char × List Char
  | [] => ([], [])
  | e :: rest =>
    let (sign, tail) := signPart rest
    let digits := tail.takeWhile Text.isAsciiDigit
    if (e == 'e' || e == 'E') && !digits.isEmpty then
      (e :: (sign ++ digits), tail.dropWhile Text.isAsciiDigit)
    else ([], e :: rest)

/-- The digits before the point; a zero stands alone. -/
def wholePart : List Char → List Char × List Char
  | '0' :: rest => (['0'], rest)
  | cs => (cs.takeWhile Text.isAsciiDigit, cs.dropWhile Text.isAsciiDigit)

/-- The digits of a number behind its sign. A number without fraction and exponent is whole. -/
def readUnsigned (negative : Bool) (cs : List Char) : Result Datum :=
  let (whole, rest) := wholePart cs
  let (fraction, rest) := fractionPart rest
  let (exponent, rest) := exponentPart rest
  if whole.isEmpty then .error .malformed
  else if fraction.isEmpty && exponent.isEmpty then
    match Number.natOfDigits whole with
    | .ok n => .ok (.int (Number.signed negative n), rest)
    | .error limit => .error (.tooLong limit)
  else
    match Number.Decimal.ofChars? (whole ++ fraction ++ exponent) with
    | some d => .ok (.float { d with negative }.toBinary, rest)
    | none => .error .malformed

def readNumber : List Char → Result Datum
  | '-' :: rest => readUnsigned true rest
  | cs => readUnsigned false cs

def words : List (List Char × Datum) :=
  [("null".toList, .null), ("true".toList, .bool true), ("false".toList, .bool false),
    ("NaN".toList, .float .nan), ("Infinity".toList, .float (.infinite false)),
    ("-Infinity".toList, .float (.infinite true))]

def readWord? (cs : List Char) : Option (Datum × List Char) :=
  words.findSome? fun (word, d) =>
    if word.isPrefixOf cs then some (d, cs.drop word.length) else none

mutual

def readValue : (fuel : Nat) → List Char → Result Datum
  | 0, _ => .error .malformed
  | fuel + 1, cs =>
    match cs with
    | '"' :: rest => (readText rest [] rest).map fun (s, rest) => (.text s, rest)
    | '[' :: rest =>
      match skip rest with
      | ']' :: rest => .ok (.list [], rest)
      | rest => readItems fuel [] rest
    | '\x7b' :: rest =>
      match skip rest with
      | '\x7d' :: rest => .ok (.mapping [], rest)
      | rest => readFields fuel [] rest
    | cs =>
      match readWord? cs with
      | some result => .ok result
      | none => readNumber cs

/-- The items of a list from one of them on. `read` holds those before, the last one first. -/
def readItems : (fuel : Nat) → (read : List Datum) → List Char → Result Datum
  | 0, _, _ => .error .malformed
  | fuel + 1, read, cs =>
    match readValue fuel cs with
    | .error e => .error e
    | .ok (item, rest) =>
      match skip rest with
      | ',' :: rest => readItems fuel (item :: read) (skip rest)
      | ']' :: rest => .ok (.list (item :: read).reverse, rest)
      | _ => .error .malformed

/-- The fields of a mapping from one of them on. Of two with one key the later one counts. -/
def readFields : (fuel : Nat) → (read : Datum.Fields) → List Char → Result Datum
  | 0, _, _ => .error .malformed
  | fuel + 1, read, cs =>
    match cs with
    | '"' :: rest =>
      match readText rest [] rest with
      | .error e => .error e
      | .ok (key, rest) =>
        match skip rest with
        | ':' :: rest =>
          match readValue fuel (skip rest) with
          | .error e => .error e
          | .ok (value, rest) =>
            match skip rest with
            | ',' :: rest => readFields fuel (Datum.put key value read) (skip rest)
            | '\x7d' :: rest => .ok (.mapping (Datum.put key value read), rest)
            | _ => .error .malformed
        | _ => .error .malformed
    | _ => .error .malformed

end

def parse (s : String) : Except Fault Datum :=
  let cs := skip s.toList
  match readValue (cs.length + 1) cs with
  | .error e => .error e
  | .ok (d, rest) => if (skip rest).isEmpty then .ok d else .error .malformed

end Spreadsheet.Json
