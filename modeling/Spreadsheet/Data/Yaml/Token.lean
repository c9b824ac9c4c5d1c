import Spreadsheet.Data.Yaml.Cursor
import Spreadsheet.Number.Numeral

/-! Tokens, and how those of them are read that carry names: anchors, aliases, tags and directives. -/
namespace Spreadsheet.Yaml

inductive Shape where
  | list
  | mapping
deriving DecidableEq

/-- A tag as written: the name that a handle stands for is put in front of the suffix. -/
structure WrittenTag where
  handle : Option String
  suffix : String
deriving DecidableEq

inductive Directive where
  /-- The version of the format, of which the first number counts. -/
  | version (major : Nat)
  | handle (name meaning : String)
  | other
deriving DecidableEq

inductive Token where
  | streamEnd
  | documentStart
  | documentEnd
  | directive (content : Directive)
  /-- A collection begins that indentation holds together. -/
  | blockStart (shape : Shape)
  | blockEnd
  | opening (shape : Shape)
  | closing (shape : Shape)
  /-- The dash before an item. -/
  | item
  | comma
  | key
  | value
  | alias (name : String)
  | anchor (name : String)
  | tag (written : WrittenTag)
  | scalar (text : String) (plain : Bool)
deriving DecidableEq

namespace Scan

/-! ## Names -/

def isNameChar (c : Char) : Bool := c.isAlphanum || c == '-' || c == '_'

def name : Scan String := do
  let cs ← takeWhile isNameChar
  if cs.isEmpty then throw .token
  return String.ofList cs

/-- The name of an anchor or an alias, after its mark. -/
def reference : Scan String := do
  skip 1
  let s ← name
  expect fun c => endsMark c || ['?', ':', ',', ']', '\x7d', '%', '@', '\x60'].contains c
  return s

/-! ## Tags -/

def isTagChar (c : Char) : Bool :=
  c.isAlphanum || "-;/?:@&=+$,_.!~*'()[]".toList.contains c

/-- A byte in two hexadecimal digits after a percent sign. -/
def escapedByte : Scan (Option UInt8) := do
  if (← peek 0) != '%' then return none
  match hexadecimal? [← peek 1, ← peek 2] with
  | none => throw .token
  | some n =>
    skip 3
    return some (UInt8.ofNat n)

def escapedBytes : (count : Nat) → Scan (List UInt8)
  | 0 => return []
  | count + 1 => do
    match ← escapedByte with
    | none => return []
    | some byte => return byte :: (← escapedBytes count)

/-- Characters of a tag, or others that bytes spell in UTF-8. -/
def tagPiece : Scan (Option (List Char)) := do
  if (← peek 0) == '%' then
    let bytes ← escapedBytes (← get).rest.length
    match String.fromUTF8? ⟨bytes.toArray⟩ with
    | none => throw .token
    | some s => return some s.toList
  else
    let cs ← takeWhile isTagChar
    return if cs.isEmpty then none else some cs

def tagText : Scan String := do
  expect fun c => isTagChar c || c == '%'
  return String.ofList (← join tagPiece)

/-- An exclamation mark, alone before a blank, or a name between two of them. -/
def tagHandle : Scan String := do
  expect (· == '!')
  skip 1
  if (← peek 0) == ' ' then return "!"
  let cs ← takeWhile isNameChar
  expect (· == '!')
  skip 1
  return String.ofList ('!' :: (cs ++ ['!']))

/-- Whether the word here has a second exclamation mark. -/
def hasHandle : Scan Bool := do
  let word := ((← get).rest.drop 1).takeWhile fun c => !endsWord c
  return word.contains '!'

def writtenTag : Scan WrittenTag := do
  let c ← peek 1
  if c == '<' then do
    skip 2
    let s ← tagText
    expect (· == '>')
    skip 1
    return ⟨none, s⟩
  else if endsMark c then do
    skip 1
    return ⟨none, "!"⟩
  else if ← hasHandle then
    return ⟨some (← tagHandle), ← tagText⟩
  else do
    skip 1
    return ⟨some "!", ← tagText⟩

/-- A tag, which ends a word. -/
def tag : Scan WrittenTag := do
  let written ← writtenTag
  expect endsWord
  return written

/-! ## Directives -/

def numeral : Scan Nat := do
  match Number.natOfDigits (← takeWhile Text.isAsciiDigit) with
  | .ok n => return n
  | .error limit => throw (.tooLong limit)

def version : Scan Directive := do
  skipWhile (· == ' ')
  expect Text.isAsciiDigit
  let major ← numeral
  expect (· == '.')
  skip 1
  expect Text.isAsciiDigit
  let _ ← numeral
  expect endsWord
  return .version major

def handleMeaning : Scan Directive := do
  skipWhile (· == ' ')
  let handle ← tagHandle
  expect (· == ' ')
  skipWhile (· == ' ')
  let meaning ← tagText
  expect endsWord
  return .handle handle meaning

/-- A directive of an unknown name says nothing. -/
def directive : Scan Directive := do
  skip 1
  let s ← name
  expect endsWord
  let content ←
    if s == "YAML" then version
    else if s == "TAG" then handleMeaning
    else do
      skipWhile fun c => !endsLine c
      return .other
  vacantLine
  return content

end Scan
end Spreadsheet.Yaml
