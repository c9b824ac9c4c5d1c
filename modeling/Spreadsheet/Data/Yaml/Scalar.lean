import Spreadsheet.Data.Yaml.Cursor
import Spreadsheet.Data.Yaml.Value
import Spreadsheet.Text.Blank
import Spreadsheet.Text.Case

/-! Scalars. The form of a scalar without quotation marks tells its tag, and the tag how to read it. -/
namespace Spreadsheet.Yaml

open Number (Binary64 Decimal splitSign signed)
open Text (isAsciiDigit)

inductive Tag where
  | null
  | bool
  | int
  | float
  | binary
  | timestamp
  | text
  | list
  | mapping
  | set
  | pairs
  | orderedMapping
  /-- The key whose value is merged into a mapping. -/
  | merge
  /-- The key that stands for the value of a mapping. -/
  | default
  | other (name : String)
deriving DecidableEq

namespace Tag

/-- What the names of the usual tags start with. -/
def usual : String := "tag:yaml.org,2002:"

def names : List (String × Tag) :=
  [("null", .null), ("bool", .bool), ("int", .int), ("float", .float), ("binary", .binary),
    ("timestamp", .timestamp), ("str", .text), ("seq", .list), ("map", .mapping), ("set", .set),
    ("pairs", .pairs), ("omap", .orderedMapping), ("merge", .merge), ("value", .default)]

def ofText (s : String) : Tag :=
  match names.find? fun (name, _) => usual ++ name == s with
  | some (_, tag) => tag
  | none => .other s

def isCollection : Tag → Bool
  | .list | .mapping | .set | .pairs | .orderedMapping => true
  | _ => false

end Tag

/-! ## Forms -/

def boolWords : List (String × Bool) :=
  [("yes", true), ("no", false), ("true", true), ("false", false), ("on", true), ("off", false)]

/-- A word in small letters, in capitals, or with one capital at the beginning. -/
def isSpelling (word : String) (cs : List Char) : Bool :=
  let small := word.toList
  let large := small.map Char.toUpper
  cs == small || cs == large || cs == large.take 1 ++ small.drop 1

def isBool (cs : List Char) : Bool := boolWords.any fun (word, _) => isSpelling word cs

def isNull (cs : List Char) : Bool := cs.isEmpty || cs == ['~'] || isSpelling "null" cs

/-- A digit of a base, or an underscore between digits. -/
def isFiller (base : Nat) (c : Char) : Bool := c == '_' || (digitValue? c).any (· < base)

/-- One or two digits below 60. -/
def isSixtieth : List Char → Bool
  | [c] => isAsciiDigit c
  | [c, d] => isFiller 6 c && c != '_' && isAsciiDigit d
  | _ => false

/-- Digits from the first character on, and sixtieths after colons. -/
def isCounted (cs : List Char) : Bool :=
  match Text.pieces (· == ':') cs with
  | (c :: whole) :: parts => isAsciiDigit c && whole.all (isFiller 10) && parts.all isSixtieth
  | _ => false

/-- A number without a point: binary after `0b`, hexadecimal after `0x`, octal after `0`. -/
def isWhole (cs : List Char) : Bool :=
  match (splitSign cs).2 with
  | ['0'] => true
  | '0' :: 'b' :: digits => !digits.isEmpty && digits.all (isFiller 2)
  | '0' :: 'x' :: digits => !digits.isEmpty && digits.all (isFiller 16)
  | '0' :: digits => digits.all (isFiller 8)
  | cs => isCounted cs

/-- An exponent, whose sign has to be written, or nothing. -/
def isExponent : List Char → Bool
  | [] => true
  | mark :: sign :: digits =>
    (mark == 'e' || mark == 'E') && (sign == '+' || sign == '-') && !digits.isEmpty &&
      digits.all isAsciiDigit
  | _ => false

/-- A number with a point. Without digits before the point it has no sign, and with sixtieths no
exponent. -/
def isFraction (cs : List Char) : Bool :=
  let body := (splitSign cs).2
  let whole := body.takeWhile (· != '.')
  let fraction := body.drop (whole.length + 1)
  let exponent := fraction.dropWhile (isFiller 10)
  if !body.contains '.' then false
  else if whole.isEmpty then
    cs.head? == some '.' && fraction.head?.any isAsciiDigit && isExponent exponent
  else isCounted whole && (exponent.isEmpty || (!whole.contains ':' && isExponent exponent))

def infinities : List String := [".inf", ".Inf", ".INF"]

def notNumbers : List String := [".nan", ".NaN", ".NAN"]

def isFloat (cs : List Char) : Bool :=
  isFraction cs || infinities.contains (String.ofList (splitSign cs).2) ||
    notNumbers.contains (String.ofList cs)

/-! ## Moments -/

/-- From `least` to `most` digits, and what follows them. -/
def digits? (least most : Nat) (cs : List Char) : Option (Nat × List Char) :=
  let digits := (cs.take most).takeWhile isAsciiDigit
  if digits.length < least then none else some (Text.numeral digits, cs.drop digits.length)

def expect? (c : Char) : List Char → Option (List Char)
  | d :: rest => if d == c then some rest else none
  | [] => none

/-- What separates a day from a time. -/
def skipDayEnd? : List Char → Option (List Char)
  | [] => none
  | c :: rest =>
    if c == 'T' || c == 't' then some rest
    else if isGap c then some (rest.dropWhile isGap)
    else none

/-- Microseconds from the digits after a point, of which six count. -/
def microseconds (digits : List Char) : Nat :=
  Text.numeral ((digits ++ List.replicate 6 '0').take 6)

def fraction (cs : List Char) : Nat × List Char :=
  match cs with
  | '.' :: rest => (microseconds (rest.takeWhile isAsciiDigit), rest.dropWhile isAsciiDigit)
  | cs => (0, cs)

/-- The minutes of a clock ahead of universal time, at the end of a text. -/
def offset? (cs : List Char) : Option (Option Int) :=
  match cs.dropWhile isGap with
  | [] => if cs.isEmpty then some none else none
  | ['Z'] => some (some 0)
  | sign :: rest =>
    if sign != '+' && sign != '-' then none
    else do
      let (hours, rest) ← digits? 1 2 rest
      let (minutes, rest) ←
        match rest with
        | ':' :: rest => digits? 2 2 rest
        | rest => some (0, rest)
      if rest.isEmpty then some (some (signed (sign == '-') (hours * 60 + minutes))) else none

/-- A day and perhaps a time on it, by their numbers. -/
def stamp? (cs : List Char) : Option (Calendar.Day ⊕ Calendar.Moment) := do
  let (year, rest) ← digits? 4 4 cs
  let (month, rest) ← digits? 1 2 (← expect? '-' rest)
  let (day, rest) ← digits? 1 2 (← expect? '-' rest)
  if rest.isEmpty then return .inl ⟨year, month, day⟩
  let (hour, rest) ← digits? 1 2 (← skipDayEnd? rest)
  let (minute, rest) ← digits? 2 2 (← expect? ':' rest)
  let (second, rest) ← digits? 2 2 (← expect? ':' rest)
  let (micros, rest) := fraction rest
  return .inr ⟨⟨year, month, day⟩, hour, minute, second, micros, ← offset? rest⟩

/-- A day alone needs two digits for month and day. -/
def isStamp (cs : List Char) : Bool :=
  match stamp? cs with
  | some (.inl _) => cs.length == 10
  | some (.inr _) => true
  | none => false

/-- The tag of a scalar without quotation marks. -/
def Tag.ofPlain (s : String) : Tag :=
  let cs := s.toList
  if isBool cs then .bool
  else if isFloat cs then .float
  else if isWhole cs then .int
  else if s == "<<" then .merge
  else if isNull cs then .null
  else if isStamp cs then .timestamp
  else if s == "=" then .default
  else .text

/-! ## Reading -/

def dropBase (base : Nat) : List Char → List Char
  | '0' :: mark :: digits =>
    if (base = 2 ∧ mark.toLower = 'b') ∨ (base = 8 ∧ mark.toLower = 'o') ∨
        (base = 16 ∧ mark.toLower = 'x') then digits
    else '0' :: mark :: digits
  | digits => digits

def digitOf? (base : Nat) (c : Char) : Option Nat :=
  ((Text.digit? c).or (digitValue? c)).filter (· < base)

/-- A whole number in a base of two, eight or sixteen. -/
def readInBase (base : Nat) (cs : List Char) : Except Fault Int :=
  let (negative, body) := splitSign (Text.trim cs)
  let digits := dropBase base body
  match digits.mapM (digitOf? base) with
  | some (digit :: digits) =>
    .ok (signed negative ((digit :: digits).foldl (fun n digit => n * base + digit) 0))
  | _ => .error (.noWhole base (String.ofList cs))

def readDecimal (cs : List Char) : Except Fault Int :=
  let (negative, digits) := splitSign (Text.trim cs)
  if !Number.isDigits digits then .error (.noWhole 10 (String.ofList cs))
  else
    match Number.natOfDigits digits with
    | .ok n => .ok (signed negative n)
    | .error limit => .error (.tooLong limit)

def parts (cs : List Char) : List (List Char) := Text.pieces (· == ':') cs

/-- Whether the first sign is a minus, and the characters after it. -/
def signedBody (cs : List Char) : Except Fault (Bool × List Char) :=
  if cs.isEmpty then .error .noCharacter else .ok (splitSign cs)

def readWhole (s : String) : Except Fault Int := do
  let (negative, cs) ← signedBody (s.toList.filter (· != '_'))
  let apply (i : Int) : Int := if negative then -i else i
  match cs with
  | [] => .error .noCharacter
  | ['0'] => return 0
  | '0' :: 'b' :: digits => return apply (← readInBase 2 digits)
  | '0' :: 'x' :: digits => return apply (← readInBase 16 digits)
  | '0' :: digits => return apply (← readInBase 8 ('0' :: digits))
  | cs =>
    let numbers ← (parts cs).mapM readDecimal
    return apply (numbers.foldl (fun n part => n * 60 + part) 0)

/-- A float that is not finite by its name. -/
def floatNames : List (String × Binary64) :=
  [("inf", .infinite false), ("infinity", .infinite false), ("nan", .nan)]

def readFinite (cs : List Char) : Except Fault Binary64 :=
  let trimmed := Text.trim cs
  let (negative, body) := splitSign trimmed
  match floatNames.lookup (String.ofList body), Number.Decimal.ofChars? trimmed with
  | some x, _ => .ok (if negative then x.neg else x)
  | none, some d => .ok d.toBinary
  | none, none => .error (.noFloat (String.ofList cs))

/-- Adds numbers of which each counts sixty times as much as the one before. -/
def sumSixtieths (total : Binary64) (weight : Nat) : List Binary64 → Except Fault Binary64
  | [] => .ok total
  | part :: parts =>
    let w := Binary64.ofInt weight
    if w.isFinite then sumSixtieths (total.add (part.mul w)) (weight * 60) parts
    else .error .tooGreat

def readFloat (s : String) : Except Fault Binary64 := do
  let (negative, cs) ← signedBody (Text.lower (s.toList.filter (· != '_')))
  let apply (x : Binary64) : Binary64 := if negative then x.neg else x
  if cs == ['.', 'i', 'n', 'f'] then return .infinite negative
  if cs == ['.', 'n', 'a', 'n'] then return .nan
  match parts cs with
  | [cs] => return apply (← readFinite cs)
  | parts => return apply (← sumSixtieths (.zero false) 1 (← parts.mapM readFinite).reverse)

def readBool (s : String) : Except Fault Bool :=
  match boolWords.lookup (String.ofList (Text.lower s.toList)) with
  | some b => .ok b
  | none => .error .noBool

def readStamp (s : String) : Except Fault Value :=
  match stamp? s.toList with
  | none => .error .noMoment
  | some (.inl day) => (day.checked.mapError .calendar).map .day
  | some (.inr moment) => (moment.checked.mapError .calendar).map .moment

def sextet? (c : Char) : Option Nat :=
  let n := c.toNat
  if 0x41 ≤ n && n ≤ 0x5A then some (n - 0x41)
  else if 0x61 ≤ n && n ≤ 0x7A then some (n - 0x61 + 26)
  else if 0x30 ≤ n && n ≤ 0x39 then some (n - 0x30 + 52)
  else if c == '+' then some 62
  else if c == '/' then some 63
  else none

/-- The bytes that numbers of six bits make up; `held` are the bits not yet used. A byte that the bits
do not fill has to be padded, and padding ends the text. -/
def bytesOf (held : List Nat) (padding : Nat) : List Char → Option (List UInt8)
  | [] => if held.isEmpty then some [] else none
  | c :: rest =>
    if c == '=' then
      if held.length + padding + 1 < 4 || held.length < 2 then bytesOf held (padding + 1) rest
      else
        match held with
        | [a, b] => some [UInt8.ofNat (a * 4 + b / 16)]
        | [a, b, c] => some [UInt8.ofNat (a * 4 + b / 16), UInt8.ofNat (b % 16 * 16 + c / 4)]
        | _ => none
    else
      match sextet? c, held with
      | none, held => bytesOf held padding rest
      | some d, [a, b, c] =>
        (bytesOf [] 0 rest).map fun bytes =>
          UInt8.ofNat (a * 4 + b / 16) :: UInt8.ofNat (b % 16 * 16 + c / 4) ::
            UInt8.ofNat (c % 4 * 64 + d) :: bytes
      | some d, held => bytesOf (held ++ [d]) 0 rest

/-- Bytes in base 64, with any other ASCII characters between. -/
def readBinary (s : String) : Except Fault (List UInt8) :=
  if s.toList.all fun c => c.toNat < 0x80 then
    match bytesOf [] 0 s.toList with
    | some bytes => .ok bytes
    | none => .error .tag
  else .error .tag

def readScalar (tag : Tag) (s : String) : Except Fault Value :=
  match tag with
  | .null => .ok .null
  | .bool => (readBool s).map .bool
  | .int => (readWhole s).map .int
  | .float => (readFloat s).map .float
  | .binary => (readBinary s).map .binary
  | .timestamp => readStamp s
  | .text => .ok (.text s)
  | _ => .error .tag

end Spreadsheet.Yaml
