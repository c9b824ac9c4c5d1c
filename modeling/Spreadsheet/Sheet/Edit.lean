import Spreadsheet.Formula.Reads
import Spreadsheet.Graph.Cycle
import Spreadsheet.Sheet.Calculation

/-! Edits of contents. A formula that would close a cycle leaves the edges as they are and calculates
nothing; any other edit is followed by one pass over the edited cells and all that read them. If the
pass breaks off, the edit fails, but the contents stay edited. So they do if a number is too long to tell
of the edit: that of a row, or the limit that a range is over. -/
namespace Spreadsheet.Sheet

/-- A sheet after an edit, what happened on the way, and the answer to the edit. -/
structure Edited (α : Type) where
  sheet : Sheet
  events : List Event
  answer : α

/-- An edit that was refused changes nothing. -/
def refuse {α : Type} (s : Sheet) (fault : Fault) : Edited (Except Fault α) :=
  ⟨s, [], .error fault⟩

/-- Ends an edit with a pass over some cells. A pass that comes to its end is told of, with the cell
that caused it. -/
def conclude {α : Type} (s : Sheet) (trigger : Option Address) (cells : AddressSet)
    (before after : List Event) (answer : α) : Edited (Except Fault α) :=
  match s.pass cells with
  | .ok p =>
    if trigger.all Address.isWritable then
      ⟨p.sheet, before ++ p.event trigger :: after, .ok answer⟩
    else ⟨p.sheet, before, .error .untold⟩
  | .error broken => ⟨broken.sheet, before, .error (.precision broken.fault)⟩

/-! ## Single cells -/

/-- What content is taken for in a cell, and the cells it reads there. -/
def interpret (s : Sheet) (a : Address) (content : String) :
    Except Rejection (Cell.Kind × AddressSet) :=
  if !Formula.isFormulaText content then .ok (.constant, ∅)
  else
    match Formula.parse content with
    | .error e => .error (.malformed e)
    | .ok f =>
      match f.oversized? s.limits.rangeCells with
      | some (first, last) => .error (.oversized first last s.limits.rangeCells)
      | none =>
        let reads := f.addresses s.bounds
        match s.graph.cyclePath? a reads with
        | some path => .error (.circular path)
        | none => .ok (.formula f, reads)

/-- Puts content into a cell without calculating it. A cell refused for a cycle shows that at once
and keeps its edges; one refused otherwise reads nothing. -/
def stage (s : Sheet) (a : Address) (content : String) : Sheet × Option Rejection :=
  match s.interpret a content with
  | .ok (kind, reads) =>
    ({ s with cells := s.cells.insert a ⟨content, kind, .pending none⟩,
              graph := s.graph.setReads a reads }, none)
  | .error (.circular path) =>
    ({ s with cells := s.cells.insert a ⟨content, .rejected .cycle, .known (.error .cycle)⟩ },
      some (.circular path))
  | .error r =>
    ({ s with cells := s.cells.insert a ⟨content, .rejected r.kind, .pending none⟩,
              graph := s.graph.clearReads a }, some r)

/-- Empties a cell without calculating those that read it. -/
def vacate (s : Sheet) (a : Address) : Sheet :=
  { s with cells := s.cells.erase a, graph := s.graph.clearReads a }

/-- Empties a cell and calculates those that read it. -/
def clearAt (s : Sheet) (a : Address) : Edited (Except Fault (Option Diagnostic)) :=
  let emptied := s.vacate a
  if s.cells.contains a then
    emptied.conclude (some a) (emptied.affected {a}) [] [.cellCleared a] none
  else ⟨{ emptied with recalculated := [] }, [], .ok none⟩

/-- Puts content that is not blank into a cell. -/
def enter (s : Sheet) (a : Address) (content : String) :
    Edited (Except Fault (Option Diagnostic)) :=
  let (staged, rejection) := s.stage a content
  if !rejection.all (Rejection.isTellable a) then ⟨staged, [], .error .halted⟩
  else
    let found := rejection.map (Diagnostic.mk a)
    let told : List Event := found.toList.map .rejected
    match rejection with
    | some (.circular _) => ⟨{ staged with recalculated := [] }, told, .ok found⟩
    | _ =>
      staged.conclude (some a) (staged.affected {a}) told
        [.cellSet a (Formula.isFormulaText content)] found

/-- Sets the content of a cell; blank content empties it. -/
def set (s : Sheet) (given : Address.Given) (content : Datum) :
    Edited (Except Fault (Option Diagnostic)) :=
  match content with
  | .text content =>
    match s.locate given with
    | .error fault => s.refuse fault
    | .ok a => if Text.isAllBlank content then s.clearAt a else s.enter a content
  | found => s.refuse (.noText found)

def clear (s : Sheet) (given : Address.Given) : Edited (Except Fault (Option Diagnostic)) :=
  match s.locate given with
  | .error fault => s.refuse fault
  | .ok a => s.clearAt a

/-! ## Many cells -/

/-- Contents put into cells one after the other, before anything is calculated. -/
structure Batch where
  sheet : Sheet
  touched : AddressSet
  /-- The last one first. -/
  diagnostics : List Diagnostic

namespace Batch

def start (s : Sheet) : Batch := ⟨s, ∅, []⟩

/-- Puts content into a cell. A refused formula that cannot be told of ends the batch. -/
def put (b : Batch) (item : Address × String) : Except Batch Batch :=
  let (a, content) := item
  if Text.isAllBlank content then
    if b.sheet.cells.contains a then
      .ok { b with sheet := b.sheet.vacate a, touched := b.touched.insert a }
    else .ok b
  else
    let (staged, rejection) := b.sheet.stage a content
    if !rejection.all (Rejection.isTellable a) then .error { b with sheet := staged }
    else
      .ok ⟨staged, b.touched.insert a, (rejection.map (Diagnostic.mk a)).toList ++ b.diagnostics⟩

def putAll (b : Batch) (items : List (Address × String)) : Except Batch Batch := items.foldlM put b

/-- The diagnostics in the order in which they arose. -/
def found (b : Batch) : List Diagnostic := b.diagnostics.reverse

def events (b : Batch) : List Event := b.found.map .rejected

end Batch

/-- Puts contents into cells in ascending order and calculates once. -/
def enterAll (s : Sheet) (contents : AddressMap String) :
    Edited (Except Fault (List Diagnostic)) :=
  match (Batch.start s).putAll contents.toList with
  | .error b => ⟨b.sheet, b.events, .error .halted⟩
  | .ok b =>
    b.sheet.conclude none (b.sheet.affected b.touched) b.events
      [.loaded contents.size b.found.length] b.found

/-- The cells for which contents are given; of two contents for one cell the later one counts. -/
def locateAll (s : Sheet) (items : List (Address.Given × Datum)) :
    Except Fault (AddressMap Datum) :=
  items.foldlM (fun contents (given, content) => do
    return contents.insert (← s.locate given) content) ∅

def textContent? : Address × Datum → Option (Address × String)
  | (a, .text content) => some (a, content)
  | _ => none

def unloadable? (contents : List (Address × Datum)) : Option Datum :=
  (contents.find? fun item => (textContent? item).isNone).map Prod.snd

def leadingTexts (contents : List (Address × Datum)) : List (Address × String) :=
  (contents.takeWhile fun item => (textContent? item).isSome).filterMap textContent?

/-- Sets many contents and calculates once. A content that is no text ends the edit; the cells before
it have their contents by then and wait for their values. -/
def load (s : Sheet) (items : List (Address.Given × Datum)) :
    Edited (Except Fault (List Diagnostic)) :=
  match s.locateAll items with
  | .error fault => s.refuse fault
  | .ok contents =>
    match unloadable? contents.toList with
    | none => s.enterAll (contents.filterMap fun a content =>
        (textContent? (a, content)).map Prod.snd)
    | some found =>
      match (Batch.start s).putAll (leadingTexts contents.toList) with
      | .error b => ⟨b.sheet, b.events, .error .halted⟩
      | .ok b => ⟨b.sheet, b.events, .error (.unloadable found)⟩

def recalculateAll (s : Sheet) : Edited (Except Fault Unit) :=
  s.conclude none (s.cells.keys.foldl .insert ∅) [] [] ()

end Spreadsheet.Sheet
