import Spreadsheet.Data.Yaml.Scalar
import Spreadsheet.Data.Yaml.Tokens

/-! Nodes: scalars and collections with their tags, as tokens spell them. A node may have a name, by
which it can stand in further places. -/
namespace Spreadsheet.Yaml

inductive Node where
  | scalar (tag : Tag) (text : String)
  | sequence (tag : Tag) (items : List Node)
  | mapping (tag : Tag) (entries : List (Node × Node))
  | enclosing (shape : Shape)

namespace Node

/-- What stands where a node is left out. -/
def empty : Node := .scalar .null ""

instance : Inhabited Node := ⟨.empty⟩

/-! ## Reading tokens -/

inductive Named where
  /-- A collection that goes on. -/
  | begun (shape : Shape)
  | complete (node : Node)

structure State where
  tokens : List Token
  /-- Why the tokens end, if they end too early. -/
  fault : Fault
  handles : List (String × String)
  names : List (String × Named)

abbrev Read := StateT State (Except Fault)

def peek : Read Token := do
  let s ← get
  match s.tokens with
  | t :: _ => return t
  | [] => throw s.fault

def drop : Read Unit := modify fun s => { s with tokens := s.tokens.tail }

def expect (t : Token) : Read Unit := do
  if (← peek) == t then drop else throw .order

/-- Reads a node, unless it is left out before one of some tokens. -/
def nodeUnless (stops : List Token) (read : Read Node) : Read Node := do
  if stops.contains (← peek) then return .empty else read

/-- Reads a node after a token, if the token is there. -/
def after (t : Token) (stops : List Token) (read : Read Node) : Read Node := do
  if (← peek) == t then
    drop
    nodeUnless stops read
  else return .empty

/-! ## Names and tags -/

def defaultHandles : List (String × String) := [("!", "!"), ("!!", Tag.usual)]

def tagText (written : WrittenTag) : Read String := do
  match written.handle with
  | none => return written.suffix
  | some handle =>
    match (← get).handles.lookup handle with
    | some meaning => return meaning ++ written.suffix
    | none => throw .order

/-- The name and the tag in front of a node, in either order. -/
def properties : Read (Option String × Option String) := do
  match ← peek with
  | .anchor name => do
    drop
    match ← peek with
    | .tag written => do
      drop
      return (some name, some (← tagText written))
    | _ => return (some name, none)
  | .tag written => do
    drop
    match ← peek with
    | .anchor name => do
      drop
      return (some name, some (← tagText written))
    | _ => return (none, some (← tagText written))
  | _ => return (none, none)

/-- The tag that is written; without one, or with an exclamation mark alone, the usual one. -/
def tagOr (usual : Tag) : (written : Option String) → Tag
  | none => usual
  | some s => if s == "!" then usual else .ofText s

/-- A scalar in quotation marks or a block is text, unless its tag is an exclamation mark. -/
def ofScalar (written : Option String) (text : String) (plain : Bool) : Node :=
  let usual := if plain || written == some "!" then Tag.ofPlain text else .text
  .scalar (tagOr usual written) text

def define (name : Option String) (named : Named) : Read Unit :=
  match name with
  | none => return ()
  | some name => modify fun s => { s with names := (name, named) :: s.names }

/-- Reads the parts of a collection, which are given its name before it is complete. -/
def collection {α : Type} (name : Option String) (shape : Shape) (parts : Read α) (make : α → Node) :
    Read Node := do
  define name (.begun shape)
  let node := make (← parts)
  define name (.complete node)
  return node

/-! ## Nodes -/

inductive Place where
  /-- In a document or an item. -/
  | block
  /-- In an entry of a mapping, where items need not be deeper than their key. -/
  | entry
  | brackets
deriving DecidableEq

/-- Whether a token begins the content of a node. -/
def begins (place : Place) : Token → Bool
  | .scalar _ _ | .opening _ => true
  | .blockStart _ => place ≠ .brackets
  | .item => place == .entry
  | _ => false

/-- Reads a comma between items in brackets. -/
def commaUnless (first : Bool) : Read Unit :=
  if first then return () else expect .comma

/-- What follows a key or a value that is left out, outside brackets. -/
def blockStops : List Token := [.key, .value, .blockEnd]

/-- The same for an item. -/
def itemStops : List Token := [.item, .key, .value, .blockEnd]

mutual

def node (place : Place) : (steps : Nat) → Read Node
  | 0 => throw .order
  | steps + 1 => do
    if let .alias name ← peek then
      drop
      match (← get).names.lookup name with
      | none => throw .reference
      | some (.begun shape) => return .enclosing shape
      | some (.complete node) => return node
    else
      let (name, tag) ← properties
      let t ← peek
      let known := (← get).names
      if !begins place t && name.isNone && tag.isNone then throw .order
      if name.any fun name => (known.lookup name).isSome then throw .reference
      content place name tag t steps

/-- Reads a node from its first token on, after its name and its tag. -/
def content (place : Place) (name tag : Option String) (t : Token) : (steps : Nat) → Read Node
  | 0 => throw .order
  | steps + 1 => do
    let scalar (text : String) (plain : Bool) : Read Node := do
      let node := ofScalar tag text plain
      define name (.complete node)
      return node
    let list (items : Read (List Node)) : Read Node :=
      collection name .list items (.sequence (tagOr .list tag))
    let mapping (entries : Read (List (Node × Node))) : Read Node :=
      collection name .mapping entries (.mapping (tagOr .mapping tag))
    if !begins place t then scalar "" true
    else
      match t with
      | .item => list (items steps)
      | .blockStart .list => drop; list (blockItems steps)
      | .blockStart .mapping => drop; mapping (blockEntries steps)
      | .opening .list => drop; list (bracketItems true steps)
      | .opening .mapping => drop; mapping (bracketEntries true steps)
      | .scalar text plain => drop; scalar text plain
      | _ => throw .order

/-- Reads items as deep as the key before them, up to another token. -/
def items : (steps : Nat) → Read (List Node)
  | 0 => throw .order
  | steps + 1 => do
    if (← peek) == .item then
      drop
      let item ← nodeUnless itemStops (node .block steps)
      return item :: (← items steps)
    else return []

def blockItems : (steps : Nat) → Read (List Node)
  | 0 => throw .order
  | steps + 1 => do
    if (← peek) == .item then
      drop
      let item ← nodeUnless [.item, .blockEnd] (node .block steps)
      return item :: (← blockItems steps)
    else
      expect .blockEnd
      return []

def blockEntries : (steps : Nat) → Read (List (Node × Node))
  | 0 => throw .order
  | steps + 1 => do
    if (← peek) == .key then
      let key ← after .key blockStops (node .entry steps)
      let value ← after .value blockStops (node .entry steps)
      return (key, value) :: (← blockEntries steps)
    else
      expect .blockEnd
      return []

/-- Reads items up to a bracket. A key with its value is an item too. -/
def bracketItems (first : Bool) : (steps : Nat) → Read (List Node)
  | 0 => throw .order
  | steps + 1 => do
    if (← peek) == .closing .list then
      drop
      return []
    commaUnless first
    let t ← peek
    if t == .closing .list then
      drop
      return []
    let item ←
      if t == .key then do
        let key ← after .key [.value, .comma, .closing .list] (node .brackets steps)
        let value ← after .value [.comma, .closing .list] (node .brackets steps)
        pure (.mapping .mapping [(key, value)])
      else node .brackets steps
    return item :: (← bracketItems false steps)

/-- Reads entries up to a bracket. Keys may do without marks and values. -/
def bracketEntries (first : Bool) : (steps : Nat) → Read (List (Node × Node))
  | 0 => throw .order
  | steps + 1 => do
    if (← peek) == .closing .mapping then
      drop
      return []
    commaUnless first
    let t ← peek
    if t == .closing .mapping then
      drop
      return []
    let entry ←
      if t == .key then do
        let key ← after .key [.value, .comma, .closing .mapping] (node .brackets steps)
        let value ← after .value [.comma, .closing .mapping] (node .brackets steps)
        pure (key, value)
      else do
        let key ← node .brackets steps
        pure (key, .empty)
    return entry :: (← bracketEntries false steps)

end

/-! ## Documents -/

/-- Reads directives. A version and the meaning of a handle are given once at most. -/
def directives (version : Bool) : (steps : Nat) → Read Unit
  | 0 => throw .order
  | steps + 1 => do
    let .directive content ← peek | return ()
    drop
    match content with
    | .version major => do
      if version || major ≠ 1 then throw .order
      directives true steps
    | .handle name meaning => do
      let handles := (← get).handles
      if (handles.lookup name).isSome then throw .order
      set { ← get with handles := (name, meaning) :: handles }
      directives version steps
    | .other => directives version steps

/-- Reads what precedes a document and the mark of its beginning. -/
def header (steps : Nat) : Read Unit := do
  modify fun s => { s with handles := [] }
  directives false steps
  expect .documentStart
  modify fun s => { s with handles := s.handles ++ defaultHandles }

def skipEnds : (steps : Nat) → Read Unit
  | 0 => throw .order
  | steps + 1 => do
    if (← peek) == .documentEnd then
      drop
      skipEnds steps

/-- Reads the first document, if there is one. Only its own beginning may do without a mark. -/
def document (steps : Nat) : Read (Option Node) := do
  match ← peek with
  | .streamEnd => return none
  | .directive _ | .documentStart => do
    header steps
    let stops : List Token := [.documentStart, .documentEnd, .streamEnd]
    match ← peek with
    | .directive _ => return some .empty
    | _ => some <$> nodeUnless stops (node .block steps)
  | _ => some <$> node .block steps

def single (steps : Nat) : Read (Option Node) := do
  let found ← document steps
  skipEnds steps
  if (← peek) == .streamEnd then return found
  header steps
  throw .reference

/-- The node of the document that tokens spell, if they spell any. No more than three steps follow each
other before a token is passed. -/
def ofTokens? (ts : Tokens) : Except Fault (Option Node) :=
  (single (3 * ts.toList.length + 10)).run'
    ⟨ts.toList, ts.fault.getD .order, defaultHandles, []⟩

end Node
end Spreadsheet.Yaml
