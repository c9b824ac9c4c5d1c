import Spreadsheet.Data.Yaml.Token.Scalar

/-! The tokens of a text. Indentation gives tokens at both ends of the collections it holds together. A
key needs no mark: a colon behind it makes it one, so its tokens are put in front of tokens that are
there already. -/
namespace Spreadsheet.Yaml

structure PossibleKey where
  /-- Between how many brackets it stands. -/
  depth : Nat
  position : Nat
  /-- Nothing else can stand there. -/
  required : Bool
  start : Cursor

/-- Keys are on one line with their colon, and no more than 1024 characters before it. -/
def PossibleKey.isStale (c : Cursor) (k : PossibleKey) : Bool :=
  k.start.line != c.line || k.start.index + 1024 < c.index

structure Progress where
  cursor : Cursor
  tokens : Array Token
  depth : Nat
  /-- The first column that is deeper than the innermost collection, by indentation. -/
  margin : Nat
  /-- The margins of the collections around it. -/
  outer : List Nat
  /-- Whether a key can begin at the next token. -/
  keyAllowed : Bool
  /-- At most one between any brackets. -/
  keys : List PossibleKey

abbrev Reading := StateT Progress (Except Fault)

namespace Progress

def start (cs : List Char) : Progress := ⟨.start cs, #[], 0, 0, [], true, []⟩

/-- The count of the tokens in front of which none will be put. -/
def settled (s : Progress) : Nat :=
  s.keys.foldl (fun n key => min n key.position) s.tokens.size

/-- Reads on from the place that is reached. -/
def scan {α : Type} (read : Scan α) : Reading α := do
  let s ← get
  let (a, cursor) ← read.run s.cursor
  set { s with cursor }
  return a

def push (t : Token) : Reading Unit := modify fun s => { s with tokens := s.tokens.push t }

/-- Puts a token in front of the one at a position. -/
def insert (position : Nat) (t : Token) : Reading Unit :=
  modify fun s => { s with tokens := s.tokens.insertIdxIfInBounds position t }

def allowKey (allowed : Bool) : Reading Unit := modify fun s => { s with keyAllowed := allowed }

/-! ## Keys -/

/-- Gives up what may be a key and is to be dropped. -/
def dropKeys (drop : PossibleKey → Bool) : Reading Unit := do
  let s ← get
  if s.keys.any fun key => drop key && key.required then throw .token
  set { s with keys := s.keys.filter fun key => !drop key }

/-- Gives up the key that may stand between the innermost brackets. -/
def dropKey : Reading Unit := do
  let depth := (← get).depth
  dropKeys (·.depth == depth)

def dropStaleKeys : Reading Unit := do
  let cursor := (← get).cursor
  dropKeys (·.isStale cursor)

/-- Takes the next token for what may be a key, where one can begin. -/
def markKey : Reading Unit := do
  if (← get).keyAllowed then
    dropKey
    modify fun s =>
      let required := s.depth == 0 && s.margin == s.cursor.column + 1
      { s with keys := ⟨s.depth, s.tokens.size, required, s.cursor⟩ :: s.keys }

/-! ## Indentation -/

/-- Ends collections up to one with a margin no deeper than `target`. -/
def closeTo (target : Nat) : (margin : Nat) → (outer : List Nat) → Array Token →
    Nat × List Nat × Array Token
  | margin, [], tokens => (margin, [], tokens)
  | margin, next :: outer, tokens =>
    if target < margin then closeTo target next outer (tokens.push .blockEnd)
    else (margin, next :: outer, tokens)

/-- Ends the collections with a margin beyond `target`, outside brackets. -/
def close (target : Nat) : Reading Unit :=
  modify fun s =>
    if s.depth ≠ 0 then s
    else
      let (margin, outer, tokens) := closeTo target s.margin s.outer s.tokens
      { s with margin, outer, tokens }

def opens (column : Nat) : Reading Bool := do
  let s ← get
  if s.margin ≤ column then
    set { s with margin := column + 1, outer := s.margin :: s.outer }
    return true
  else return false

/-- Begins a collection here if the column is deeper than those around. A mark outside brackets is
refused where no key could begin. -/
def openBlock (shape : Shape) : Reading Unit := do
  let s ← get
  if s.depth = 0 then
    if !s.keyAllowed then throw .token
    if ← opens s.cursor.column then push (.blockStart shape)

/-! ## Tokens -/

def mark (t : Token) : Reading Unit := do
  scan (Scan.skip 1)
  push t

/-- Reads a token outside all collections. -/
def outermost (read : Scan Token) : Reading Unit := do
  close 0
  dropKey
  allowKey false
  push (← scan read)

def separator (t : Token) : Scan Token := do
  Scan.skip 3
  return t

/-- Reads a token with which a key may begin. -/
def leading (read : Scan Token) : Reading Unit := do
  markKey
  allowKey false
  push (← scan read)

def opening (shape : Shape) : Reading Unit := do
  markKey
  modify fun s => { s with depth := s.depth + 1 }
  allowKey true
  mark (.opening shape)

def closing (shape : Shape) : Reading Unit := do
  dropKey
  modify fun s => { s with depth := s.depth - 1 }
  allowKey false
  mark (.closing shape)

def comma : Reading Unit := do
  allowKey true
  dropKey
  mark .comma

def item : Reading Unit := do
  openBlock .list
  allowKey true
  dropKey
  mark .item

/-- Reads the mark of a key. Outside brackets the key may hold another one. -/
def markedKey : Reading Unit := do
  openBlock .mapping
  allowKey ((← get).depth == 0)
  dropKey
  mark .key

/-- Reads a colon. What may be a key before it is one. -/
def value : Reading Unit := do
  let s ← get
  match s.keys.find? (·.depth == s.depth) with
  | some key => do
    set { s with keys := s.keys.filter (·.depth != s.depth) }
    insert key.position .key
    if s.depth = 0 then
      if ← opens key.start.column then insert key.position (.blockStart .mapping)
    allowKey false
  | none => do
    openBlock .mapping
    allowKey (s.depth == 0)
    dropKey
  mark .value

def block (fold : Bool) : Reading Unit := do
  allowKey true
  dropKey
  let s ← get
  push (.scalar (← scan (Scan.block fold s.margin)) false)

def plain : Reading Unit := do
  markKey
  let s ← get
  let (text, broken) ← scan (Scan.plain (s.depth ≠ 0) s.margin)
  allowKey broken
  push (.scalar text true)

def ending : Reading Unit := do
  close 0
  dropKey
  modify fun s => { s with keyAllowed := false, keys := [] }
  push .streamEnd

/-! ## Sequence -/

/-- Passes blanks, comments and empty lines, and tells whether there was a break. -/
def skipGaps (broken : Bool) : (steps : Nat) → Scan Bool
  | 0 => return broken
  | steps + 1 => do
    Scan.comment
    let cs ← Scan.lineBreak
    if cs.isEmpty then return broken else skipGaps true steps

def skipToToken : Reading Unit := do
  let s ← get
  if s.cursor.index == 0 && s.cursor.peek 0 == byteOrderMark then scan (Scan.skip 1)
  let broken ← scan (skipGaps false (s.cursor.rest.length + 1))
  if broken && s.depth == 0 then allowKey true

/-- What a plain scalar starts with only before a character of a word. -/
def isMark (c : Char) : Bool := c == '-' || c == '?' || c == ':'

/-- What no plain scalar starts with. -/
def isIndicator (c : Char) : Bool :=
  Scan.isBracket c ||
    [',', '#', '&', '*', '!', '|', '>', '\'', '"', '%', '@', '\x60'].contains c

def startsPlain (s : Progress) : Bool :=
  let c := s.cursor.peek 0
  if isMark c then !endsMark (s.cursor.peek 1) && (c == '-' || s.depth == 0)
  else !endsMark c && !isIndicator c

def next : Reading Unit := do
  skipToToken
  dropStaleKeys
  close ((← get).cursor.column + 1)
  let s ← get
  let c := s.cursor.peek 0
  let alone := s.depth != 0 || endsMark (s.cursor.peek 1)
  if s.cursor.rest.isEmpty then ending
  else if c == '%' && s.cursor.column == 0 then outermost (.directive <$> Scan.directive)
  else if s.cursor.isMarked '-' then outermost (separator .documentStart)
  else if s.cursor.isMarked '.' then outermost (separator .documentEnd)
  else if c == '[' then opening .list
  else if c == '\x7b' then opening .mapping
  else if c == ']' then closing .list
  else if c == '\x7d' then closing .mapping
  else if c == ',' then comma
  else if c == '-' && endsMark (s.cursor.peek 1) then item
  else if c == '?' && alone then markedKey
  else if c == ':' && alone then value
  else if c == '*' then leading (.alias <$> Scan.reference)
  else if c == '&' then leading (.anchor <$> Scan.reference)
  else if c == '!' then leading (.tag <$> Scan.tag)
  else if c == '|' && s.depth == 0 then block false
  else if c == '>' && s.depth == 0 then block true
  else if c == '\'' then leading ((.scalar · false) <$> Scan.quoted false)
  else if c == '"' then leading ((.scalar · false) <$> Scan.quoted true)
  else if s.startsPlain then plain
  else throw .token

end Progress

/-- Tokens, and what is wrong with the text after them. Without a fault they end with the stream. -/
structure Tokens where
  toList : List Token
  fault : Option Fault

namespace Tokens

/-- Reads tokens to the end. Of a text with a fault those are left that were settled before. -/
def scanFor (s : Progress) : (steps : Nat) → Tokens
  | 0 => ⟨s.tokens.toList, some .token⟩
  | steps + 1 =>
    let read := do
      Progress.next
      Progress.dropStaleKeys
    match read.run s with
    | .error fault => ⟨(s.tokens.extract 0 s.settled).toList, some fault⟩
    | .ok ((), after) =>
      if after.tokens.back? == some .streamEnd then ⟨after.tokens.toList, none⟩
      else scanFor after steps

/-- The tokens of a text. Each but the last takes a character at least. -/
def ofChars (cs : List Char) : Tokens := scanFor (.start cs) (cs.length + 1)

end Tokens
end Spreadsheet.Yaml
