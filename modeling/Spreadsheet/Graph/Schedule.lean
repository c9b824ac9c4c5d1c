import Spreadsheet.Graph.Basic

/-! The order in which cells are calculated: each after the cells it reads, and of those that are
ready the least one first. -/
namespace Spreadsheet.Graph

/-- Cells in an order, and those on a cycle or behind one, which have none. -/
structure Schedule where
  order : List Address
  stuck : List Address

/-- Cells not yet scheduled, with how many of them each reads, and which of them read none. -/
structure Agenda where
  waiting : AddressMap Nat
  ready : AddressSet

namespace Agenda

/-- Takes note that a cell which `reader` reads is scheduled. -/
def release (s : Agenda) (reader : Address) : Agenda :=
  match s.waiting[reader]? with
  | none => s
  | some count =>
    ⟨s.waiting.modify reader (· - 1), if count = 1 then s.ready.insert reader else s.ready⟩

def take (g : Graph) (a : Address) (s : Agenda) : Agenda :=
  (g.readersOf a).toList.foldl release ⟨s.waiting.erase a, s.ready.erase a⟩

theorem size_release (s : Agenda) (reader : Address) :
    (s.release reader).waiting.size = s.waiting.size := by
  unfold release
  split
  · rfl
  · exact Std.ExtTreeMap.size_modify

theorem size_foldl_release (s : Agenda) (readers : List Address) :
    (readers.foldl release s).waiting.size = s.waiting.size := by
  induction readers generalizing s with
  | nil => rfl
  | cons reader readers ih => rw [List.foldl_cons, ih, size_release]

theorem size_take_lt {g : Graph} {a : Address} {s : Agenda} (h : a ∈ s.waiting) :
    (s.take g a).waiting.size < s.waiting.size := by
  rw [take, size_foldl_release]
  exact size_erase_lt_of_mem h

def run (g : Graph) (s : Agenda) : Schedule :=
  match s.ready.min? with
  | none => ⟨[], s.waiting.keys⟩
  | some a =>
    if _ : a ∈ s.waiting then
      let rest := run g (s.take g a)
      { rest with order := a :: rest.order }
    else ⟨[], s.waiting.keys⟩
termination_by s.waiting.size
decreasing_by exact size_take_lt ‹_›

end Agenda

/-- How many of `cells` a cell reads. -/
def countReads (g : Graph) (cells : AddressSet) (a : Address) : Nat :=
  (g.readsOf a).foldl (fun count b => if b ∈ cells then count + 1 else count) 0

/-- The agenda of a set of cells of which none is scheduled. -/
def agenda (g : Graph) (cells : AddressSet) : Agenda :=
  let waiting : AddressMap Nat :=
    cells.foldl (fun waiting a => waiting.insert a (g.countReads cells a)) ∅
  ⟨waiting, cells.filter fun a => waiting[a]? == some 0⟩

def schedule (g : Graph) (cells : AddressSet) : Schedule := (g.agenda cells).run g

/-- Why cells are not put in order. -/
inductive Disorder where
  /-- Cells that have no place in any order. -/
  | circular (stuck : List Address)
  /-- There are such cells, and the row of one of them is too long to name it. -/
  | unnamed
deriving DecidableEq

def Disorder.message : Disorder → String
  | .circular stuck => "Circular cell reference among: " ++ ", ".intercalate (stuck.map Address.text)
  | .unnamed => Number.DigitLimit.message .writing

/-- Orders a set of cells, or names those that have no place in any order. -/
def order? (g : Graph) (cells : AddressSet) : Except Disorder (List Address) :=
  let s := g.schedule cells
  if s.stuck.isEmpty then .ok s.order
  else if s.stuck.all Address.isWritable then .error (.circular s.stuck)
  else .error .unnamed

end Spreadsheet.Graph
