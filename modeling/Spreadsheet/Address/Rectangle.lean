import Spreadsheet.Address

/-! Rectangles of cells, each given by two opposite corners. -/
namespace Spreadsheet

/-- The cells between two corners, both included. -/
structure Rectangle where
  topLeft : Address
  bottomRight : Address
deriving DecidableEq

namespace Rectangle

/-- The rectangle that two opposite corners span, in whichever order they come. -/
def ofCorners (a b : Address) : Rectangle :=
  ⟨⟨min a.row b.row, min a.col b.col⟩, ⟨max a.row b.row, max a.col b.col⟩⟩

def height (r : Rectangle) : Int := r.bottomRight.row - r.topLeft.row + 1

def width (r : Rectangle) : Int := r.bottomRight.col - r.topLeft.col + 1

def area (r : Rectangle) : Int := r.height * r.width

def Contains (r : Rectangle) (a : Address) : Prop :=
  r.topLeft.row ≤ a.row ∧ a.row ≤ r.bottomRight.row ∧
    r.topLeft.col ≤ a.col ∧ a.col ≤ r.bottomRight.col

/-- Goes through `count` cells of a row from `a` on and stops at the first failure. -/
def foldRow {ε σ : Type} (step : σ → Address → Except ε σ) : (count : Nat) → Address → σ → Except ε σ
  | 0, _, s => .ok s
  | count + 1, a, s =>
    match step s a with
    | .error e => .error e
    | .ok s => foldRow step count { a with col := a.col + 1 } s

/-- Goes through `height` rows of `width` cells from `a` on and stops at the first failure. -/
def foldRows {ε σ : Type} (step : σ → Address → Except ε σ) (width : Nat) :
    (height : Nat) → Address → σ → Except ε σ
  | 0, _, s => .ok s
  | height + 1, a, s =>
    match foldRow step width a s with
    | .error e => .error e
    | .ok s => foldRows step width height { a with row := a.row + 1 } s

/-- Goes through the cells row by row and stops at the first failure. -/
def foldCells {ε σ : Type} (r : Rectangle) (step : σ → Address → Except ε σ) (s : σ) : Except ε σ :=
  foldRows step r.width.toNat r.height.toNat r.topLeft s

def rowCells (width : Nat) (a : Address) : List Address :=
  (List.range width).map fun (i : Nat) => { a with col := a.col + i }

def cells (r : Rectangle) : List Address :=
  (List.range r.height.toNat).flatMap fun (i : Nat) =>
    rowCells r.width.toNat { r.topLeft with row := r.topLeft.row + i }

end Rectangle
end Spreadsheet
