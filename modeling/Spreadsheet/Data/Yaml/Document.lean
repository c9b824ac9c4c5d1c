import Spreadsheet.Data.Yaml.Node
import Spreadsheet.Data.Yaml.Value

/-! Values of documents. The entry of a mapping with the key `<<` stands for the entries of other
mappings, which come before its own. -/
namespace Spreadsheet.Yaml

namespace Node

def tag? : Node → Option Tag
  | .scalar tag _ | .sequence tag _ | .mapping tag _ => some tag
  | .enclosing _ => none

/-! ## Merging -/

/-- The entries of a mapping to be merged. Merging a mapping into itself adds nothing. -/
def entries? : Node → Option (List (Node × Node))
  | .mapping _ entries => some entries
  | .enclosing .mapping => some []
  | _ => none

/-- The entries that a value stands for: those of a mapping, or of a list of mappings, the last one
first. -/
def mergedEntries? : Node → Option (List (Node × Node))
  | .sequence _ items => (items.mapM entries?).map fun found => found.reverse.flatten
  | node => node.entries?

def isMerge (entry : Node × Node) : Bool := entry.1.tag? == some .merge

/-- The key `=` is text in a mapping. -/
def asKey : Node → Node
  | .scalar .default text => .scalar .text text
  | node => node

/-- Puts merged entries before the own ones. If some cannot be merged they keep their keys, which have
no value. -/
def mergeEntries (entries : List (Node × Node)) : List (Node × Node) :=
  let (merges, own) := entries.partition isMerge
  match merges.mapM fun (_, value) => value.mergedEntries? with
  | none => merges ++ own
  | some found => found.flatten ++ own.map fun (key, value) => (key.asKey, value)

mutual

def merged : Node → Node
  | .scalar tag text => .scalar tag text
  | .sequence tag items =>
    .sequence tag
      (if tag = .pairs ∨ tag = .orderedMapping then mergedInside items else mergedItems items)
  | .mapping tag entries =>
    let entries := mergedParts entries
    .mapping tag (if tag = .mapping ∨ tag = .set then mergeEntries entries else entries)
  | .enclosing shape => .enclosing shape

def mergedItems : List Node → List Node
  | [] => []
  | item :: items => merged item :: mergedItems items

/-- Pairs are mappings with an entry each, which stays as it is. -/
def mergedInside : List Node → List Node
  | [] => []
  | .mapping tag entries :: items => .mapping tag (mergedParts entries) :: mergedInside items
  | item :: items => merged item :: mergedInside items

def mergedParts : List (Node × Node) → List (Node × Node)
  | [] => []
  | (key, value) :: entries => (merged key, merged value) :: mergedParts entries

end

/-! ## Values -/

/-- A fault at a depth. Collections are looked into level by level, so the least deep one counts. -/
structure Sunk where
  depth : Nat
  fault : Fault

/-- Of two results the value of both, or the fault that counts: of equally deep ones the first. -/
def both {α β γ : Type} (f : α → β → γ) (a : Except Sunk α) (b : Except Sunk β) : Except Sunk γ :=
  match a, b with
  | .ok a, .ok b => .ok (f a b)
  | .error e, .ok _ => .error e
  | .ok _, .error e => .error e
  | .error d, .error e => .error (if e.depth < d.depth then e else d)

def lower {α : Type} (r : Except Sunk α) : Except Sunk α :=
  r.mapError fun e => { e with depth := e.depth + 1 }

def refused {α : Type} (depth : Nat) : Except Sunk α := .error ⟨depth, .tag⟩

/-- The text of a scalar, or of the value of a mapping under the key `=`. -/
def scalarText? : Node → Option String
  | .scalar _ text => some text
  | .mapping _ entries => found entries
  | _ => none
where
  found : List (Node × Node) → Option String
    | [] => none
    | (key, value) :: rest => if key.tag? == some .default then scalarText? value else found rest

/-- Whether the value of a node can be a key: no collection can. -/
def canBeKey : Node → Bool
  | .scalar tag _ | .sequence tag _ | .mapping tag _ => !tag.isCollection
  | .enclosing _ => false

/-- The value of a node whose tag is that of a scalar. -/
def scalarValue (tag : Tag) (node : Node) : Except Sunk Value :=
  match node.scalarText? with
  | some text => (readScalar tag text).mapError fun fault => ⟨0, fault⟩
  | none => refused 0

mutual

/-- The value of a node whose entries are merged. -/
def value : Node → Except Sunk Value
  | .enclosing shape => .ok (.enclosing (shape == .mapping))
  | .scalar tag text =>
    if tag.isCollection then refused 1
    else (readScalar tag text).mapError fun fault => ⟨0, fault⟩
  | .sequence tag items =>
    match tag with
    | .list => lower ((values items).map .list)
    | .pairs | .orderedMapping => lower ((pairs items).map .list)
    | .mapping | .set => refused 1
    | _ => refused 0
  | .mapping tag entries =>
    match tag with
    | .mapping => lower ((entryValues entries).map fun found => .mapping (Value.overlay [] found))
    | .set =>
      lower ((entryValues entries).map fun found => .set ((Value.overlay [] found).map Prod.fst))
    | .list | .pairs | .orderedMapping => refused 1
    | tag => scalarValue tag (.mapping tag entries)

def values : List Node → Except Sunk (List Value)
  | [] => .ok []
  | item :: items => both List.cons (value item) (values items)

/-- Each pair is a mapping with one entry. -/
def pairs : List Node → Except Sunk (List Value)
  | [] => .ok []
  | .mapping _ [(first, second)] :: items =>
    both List.cons (both .pair (value first) (value second)) (pairs items)
  | _ :: _ => refused 0

def entryValues : List (Node × Node) → Except Sunk (List (Value × Value))
  | [] => .ok []
  | (key, content) :: rest =>
    let keyed := if key.canBeKey then value key else refused 0
    both List.cons (both Prod.mk keyed (value content)) (entryValues rest)

end

end Node

def parse (s : String) : Except Fault Value := do
  let cs := Text.withLineFeeds s.toList
  match cs.find? fun c => !isAllowed c with
  | some c => throw (.forbidden c)
  | none =>
    match ← Node.ofTokens? (.ofChars cs) with
    | none => return .null
    | some node => node.merged.value.mapError Node.Sunk.fault

end Spreadsheet.Yaml
