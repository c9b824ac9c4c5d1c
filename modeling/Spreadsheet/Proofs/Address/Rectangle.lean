import Spreadsheet.Address.Bounds
import Spreadsheet.Proofs.Except

/-! The cells of a rectangle as a list. They come row by row, so that a pass over a rectangle is a fold
over that list. -/
namespace Spreadsheet

/-- Whether a cell comes before another one row by row. -/
def Address.Precedes (a b : Address) : Prop := a.row < b.row ∨ a.row = b.row ∧ a.col < b.col

theorem Address.compare_eq_lt {a b : Address} : compare a b = .lt ↔ a.Precedes b := by
  change compareLex (compareOn row) (compareOn col) a b = .lt ↔ _
  unfold compareLex compareOn Precedes
  rw [Ordering.then_eq_lt, Int.compare_eq_lt, Int.compare_eq_eq, Int.compare_eq_lt]

theorem Address.Precedes.ne {a b : Address} (h : a.Precedes b) : a ≠ b := by
  rintro rfl
  simp [Precedes] at h

namespace Rectangle

theorem mem_rowCells {width : Nat} {a b : Address} :
    b ∈ rowCells width a ↔ b.row = a.row ∧ a.col ≤ b.col ∧ b.col < a.col + width := by
  unfold rowCells
  rw [List.mem_map]
  constructor
  · rintro ⟨i, hi, rfl⟩
    rw [List.mem_range] at hi
    exact ⟨rfl, by dsimp only; omega, by dsimp only; omega⟩
  · rintro ⟨hrow, hfirst, hlast⟩
    refine ⟨(b.col - a.col).toNat, by rw [List.mem_range]; omega, ?_⟩
    have hcol : a.col + ((b.col - a.col).toNat : Int) = b.col := by omega
    rw [hcol, ← hrow]

theorem mem_cells {r : Rectangle} {b : Address} : b ∈ r.cells ↔ r.Contains b := by
  unfold cells Contains
  simp only [List.mem_flatMap, List.mem_range, mem_rowCells, height, width]
  constructor
  · rintro ⟨i, hi, hrow, hfirst, hlast⟩
    omega
  · rintro ⟨htop, hbottom, hleft, hright⟩
    exact ⟨(b.row - r.topLeft.row).toNat, by omega, by omega, hleft, by omega⟩

theorem pairwise_rowCells (width : Nat) (a : Address) :
    (rowCells width a).Pairwise Address.Precedes := by
  unfold rowCells
  rw [List.pairwise_map]
  refine List.pairwise_lt_range.imp fun {i j} hij => .inr ⟨rfl, ?_⟩
  dsimp only
  omega

theorem pairwise_cells (r : Rectangle) : r.cells.Pairwise Address.Precedes := by
  unfold cells
  rw [List.pairwise_flatMap]
  refine ⟨fun i _ => pairwise_rowCells .., List.pairwise_lt_range.imp fun {i j} hij b hb c hc => ?_⟩
  rw [mem_rowCells] at hb hc
  exact .inl (by dsimp only at hb hc; omega)

/-- Clipping leaves the cells within the bounds. -/
theorem mem_clip? {r : Rectangle} {bounds : Bounds} {b : Address} :
    (∃ c, r.clip? bounds = some c ∧ c.Contains b) ↔ bounds.contains b ∧ r.Contains b := by
  unfold clip? Contains Bounds.contains Address.isBelow Bounds.lastBelow
  cases bounds.maxRows <;> cases bounds.maxCols <;> simp <;> grind

/-! ## Passes -/

section Fold

variable {ε σ : Type} (step : σ → Address → Except ε σ)

theorem rowCells_succ (count : Nat) (a : Address) :
    rowCells (count + 1) a = a :: rowCells count { a with col := a.col + 1 } := by
  unfold rowCells
  rw [List.range_succ_eq_map, List.map_cons, List.map_map]
  congr 1
  · simp
  · apply List.map_congr_left
    intro i _
    simp only [Function.comp_apply, Address.mk.injEq, true_and]
    omega

theorem foldRow_eq_foldlM (count : Nat) (a : Address) (s : σ) :
    foldRow step count a s = (rowCells count a).foldlM step s := by
  induction count generalizing a s with
  | zero => rfl
  | succ count ih =>
    rw [rowCells_succ, List.foldlM_cons, foldRow]
    cases step s a with
    | error e => rfl
    | ok s => exact ih _ s

theorem foldRows_eq_foldlM (width height : Nat) (a : Address) (s : σ) :
    foldRows step width height a s =
      ((List.range height).flatMap fun (i : Nat) =>
        rowCells width { a with row := a.row + i }).foldlM step s := by
  induction height generalizing a s with
  | zero => rfl
  | succ height ih =>
    have hrest : ((List.range height).map Nat.succ).flatMap (fun (i : Nat) =>
        rowCells width { a with row := a.row + i }) =
          (List.range height).flatMap fun (i : Nat) =>
            rowCells width { a with row := a.row + 1 + i } := by
      rw [List.flatMap_map]
      congr 1
      funext i
      rw [Nat.succ_eq_add_one, Int.natCast_add, Int.natCast_one, Int.add_comm (i : Int) 1,
        Int.add_assoc]
    rw [List.range_succ_eq_map, List.flatMap_cons, hrest, List.foldlM_append, foldRows,
      foldRow_eq_foldlM]
    have hfirst : ({ a with row := a.row + ((0 : Nat) : Int) } : Address) = a := by simp
    rw [hfirst]
    cases (rowCells width a).foldlM step s with
    | error e => rfl
    | ok s => exact ih _ s

/-- A pass over a rectangle goes through the list of its cells. -/
theorem foldCells_eq_foldlM (r : Rectangle) (s : σ) :
    r.foldCells step s = r.cells.foldlM step s :=
  foldRows_eq_foldlM step r.width.toNat r.height.toNat r.topLeft s

end Fold

end Rectangle
end Spreadsheet
