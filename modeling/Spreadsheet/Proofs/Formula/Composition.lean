import Spreadsheet.Proofs.Formula.Transport

/-! Edits of lines one after the other. Two insertions at one place, or two deletions, are one of as many
lines, and an edit of rows and one of columns can change places. The formulas are the same in both cases,
also where a range has its corners out of order. -/
namespace Spreadsheet

namespace LineEdit

variable {axis : Axis} {index n m : Int}

theorem movePosition?_add (h : 0 < n ∧ 0 < m ∨ n < 0 ∧ m < 0) (p : Int) :
    (movePosition? ⟨axis, index, n⟩ p).bind (movePosition? ⟨axis, index, m⟩) =
      movePosition? ⟨axis, index, n + m⟩ p := by
  cases hn : movePosition? ⟨axis, index, n⟩ p with
  | none =>
    rw [movePosition?_eq_none] at hn
    symm
    rw [Option.bind_none, movePosition?_eq_none]
    unfold stop at hn ⊢
    dsimp only at hn ⊢
    omega
  | some q =>
    ext q'
    rw [movePosition?_eq_some] at hn
    rw [Option.bind_some, movePosition?_eq_some, movePosition?_eq_some]
    unfold stop at hn ⊢
    dsimp only at hn ⊢
    omega

theorem moveSpan?_insertion {e : LineEdit} (he : 0 < e.count) {low high low' high' : Int} :
    e.moveSpan? low high = some (low', high') ↔
      (low < e.index ∧ low' = low ∨ e.index ≤ low ∧ low' = low + e.count) ∧
        (high < e.index ∧ high' = high ∨ e.index ≤ high ∧ high' = high + e.count) := by
  unfold moveSpan?
  grind

theorem moveSpan?_deletion {e : LineEdit} (he : e.count < 0) {low high low' high' : Int} :
    e.moveSpan? low high = some (low', high') ↔ (low < e.index ∨ e.stop ≤ high) ∧
      (low < e.index ∧ low' = low ∨ e.index ≤ low ∧ low < e.stop ∧ low' = e.index ∨
        e.stop ≤ low ∧ low' = low + e.count) ∧
      (high < e.index ∧ high' = high ∨ e.index ≤ high ∧ high < e.stop ∧ high' = e.index - 1 ∨
        e.stop ≤ high ∧ high' = high + e.count) := by
  have hstop : e.index < e.stop := by
    unfold stop
    omega
  unfold moveSpan?
  grind

theorem moveSpan?_add (h : 0 < n ∧ 0 < m ∨ n < 0 ∧ m < 0) {low high : Int} (hle : low ≤ high) :
    ((moveSpan? ⟨axis, index, n⟩ low high).bind fun span =>
        moveSpan? ⟨axis, index, m⟩ span.1 span.2) =
      moveSpan? ⟨axis, index, n + m⟩ low high := by
  cases hn : moveSpan? ⟨axis, index, n⟩ low high with
  | none =>
    rw [moveSpan?_eq_none] at hn
    symm
    rw [Option.bind_none, moveSpan?_eq_none]
    unfold stop at hn ⊢
    dsimp only at hn ⊢
    omega
  | some span =>
    ext ⟨low', high'⟩
    rw [Option.bind_some]
    rcases h with ⟨hpos, hpos'⟩ | ⟨hneg, hneg'⟩
    · rw [moveSpan?_insertion (by simpa using hpos)] at hn
      rw [moveSpan?_insertion (by simpa using hpos'), moveSpan?_insertion (by dsimp only; omega)]
      dsimp only at hn ⊢
      omega
    · rw [moveSpan?_deletion (by simpa using hneg)] at hn
      rw [moveSpan?_deletion (by simpa using hneg'), moveSpan?_deletion (by dsimp only; omega)]
      unfold stop at hn ⊢
      dsimp only at hn ⊢
      obtain ⟨hleft, hlow, hhigh⟩ := hn
      refine and_congr ?_ (and_congr ?_ ?_)
      · omega
      · clear hhigh
        omega
      · clear hlow
        omega

/-- Only a span before the edited lines stays. -/
theorem moveSpan?_eq_self_iff {e : LineEdit} (he : e.count ≠ 0) {low high : Int} (hle : low ≤ high) :
    e.moveSpan? low high = some (low, high) ↔ high < e.index := by
  unfold moveSpan? stop
  grind

end LineEdit
namespace Axis

variable {axis axis' : Axis} {a : Address} {pos pos' : Int}

@[simp] theorem withPosition_withPosition :
    axis.withPosition (axis.withPosition a pos) = axis.withPosition a := by
  cases axis <;> rfl

theorem position_withPosition_of_ne (h : axis ≠ axis') :
    axis'.position (axis.withPosition a pos) = axis'.position a := by
  cases axis <;> cases axis' <;> first | rfl | exact absurd rfl h

theorem withPosition_comm (h : axis ≠ axis') : axis'.withPosition (axis.withPosition a pos) pos' =
    axis.withPosition (axis'.withPosition a pos') pos := by
  cases axis <;> cases axis' <;> first | rfl | exact absurd rfl h

end Axis

section Moves

variable {axis : Axis} {index n m : Int} {e e' : LineEdit}

theorem Address.shift?_add (h : 0 < n ∧ 0 < m ∨ n < 0 ∧ m < 0) (a : Address) :
    (a.shift? ⟨axis, index, n⟩).bind (Address.shift? ⟨axis, index, m⟩) =
      a.shift? ⟨axis, index, n + m⟩ := by
  unfold shift?
  dsimp only
  rw [← LineEdit.movePosition?_add h, Option.bind_map, Option.map_bind]
  simp

theorem Address.shift?_comm (h : e.axis ≠ e'.axis) (a : Address) :
    (a.shift? e).bind (Address.shift? e') = (a.shift? e').bind (Address.shift? e) := by
  unfold shift?
  simp only [Option.bind_map, Function.comp_def, Axis.position_withPosition_of_ne h,
    Axis.position_withPosition_of_ne (Ne.symm h)]
  cases e.movePosition? (e.axis.position a) <;> cases e'.movePosition? (e'.axis.position a) <;>
    simp [Axis.withPosition_comm h]

namespace Rectangle

variable {r : Rectangle}

theorem shift?_add (h : 0 < n ∧ 0 < m ∨ n < 0 ∧ m < 0) (hr : r.Ordered) :
    (r.shift? ⟨axis, index, n⟩).bind (Rectangle.shift? ⟨axis, index, m⟩) =
      r.shift? ⟨axis, index, n + m⟩ := by
  unfold shift?
  dsimp only
  rw [← LineEdit.moveSpan?_add h ((ordered_iff axis).mp hr).1, Option.bind_map, Option.map_bind]
  simp

theorem shift?_comm (h : e.axis ≠ e'.axis) (r : Rectangle) :
    (r.shift? e).bind (Rectangle.shift? e') = (r.shift? e').bind (Rectangle.shift? e) := by
  unfold shift?
  simp only [Option.bind_map, Function.comp_def, Axis.position_withPosition_of_ne h,
    Axis.position_withPosition_of_ne (Ne.symm h)]
  cases e.moveSpan? (e.axis.position r.topLeft) (e.axis.position r.bottomRight) <;>
    cases e'.moveSpan? (e'.axis.position r.topLeft) (e'.axis.position r.bottomRight) <;>
      simp [Axis.withPosition_comm h]

/-- Only a rectangle before the edited lines stays. -/
theorem Ordered.shift?_eq_self_iff (hr : r.Ordered) (he : e.count ≠ 0) :
    r.shift? e = some r ↔ e.axis.position r.bottomRight < e.index := by
  rw [shift?_eq_some, LineEdit.moveSpan?_eq_self_iff he ((ordered_iff e.axis).mp hr).1]
  simp

end Rectangle

end Moves

namespace Formula

variable {e e' : LineEdit}

/-! ## References one by one -/

mutual

/-- A formula with other formulas in place of its references. -/
def replace (cell : Address → Formula) (range : Address → Address → Formula) : Formula → Formula
  | .constant v => .constant v
  | .cell a => cell a
  | .range first last => range first last
  | .unary op x => .unary op (replace cell range x)
  | .binary op x y => .binary op (replace cell range x) (replace cell range y)
  | .call name xs => .call name (replaceAll cell range xs)

def replaceAll (cell : Address → Formula) (range : Address → Address → Formula) :
    List Formula → List Formula
  | [] => []
  | x :: xs => replace cell range x :: replaceAll cell range xs

end

mutual

/-- An edit of lines replaces the references of a formula. -/
theorem shift_eq_replace (f : Formula) : f.shift e = f.replace (shiftCell e) (shiftRange e) := by
  match f with
  | .constant v | .cell a | .range first last => rw [shift, replace]
  | .unary op x => rw [shift, replace, shift_eq_replace x]
  | .binary op x y => rw [shift, replace, shift_eq_replace x, shift_eq_replace y]
  | .call name xs => rw [shift, replace, shiftAll_eq_replaceAll xs]

theorem shiftAll_eq_replaceAll (fs : List Formula) :
    shiftAll e fs = replaceAll (shiftCell e) (shiftRange e) fs := by
  match fs with
  | [] => rw [shiftAll, replaceAll]
  | x :: xs => rw [shiftAll, replaceAll, shift_eq_replace x, shiftAll_eq_replaceAll xs]

end

section Replace

variable {cell cell' : Address → Formula} {range range' : Address → Address → Formula}

mutual

/-- What has taken the place of a reference can be replaced at once. -/
theorem replace_replace (f : Formula) : (f.replace cell range).replace cell' range' =
    f.replace (fun a => (cell a).replace cell' range')
      fun first last => (range first last).replace cell' range' := by
  match f with
  | .constant v | .cell a | .range first last => simp only [replace]
  | .unary op x => simp only [replace, replace_replace x]
  | .binary op x y => simp only [replace, replace_replace x, replace_replace y]
  | .call name xs => simp only [replace, replaceAll_replaceAll xs]

theorem replaceAll_replaceAll (fs : List Formula) :
    replaceAll cell' range' (replaceAll cell range fs) =
      replaceAll (fun a => (cell a).replace cell' range')
        (fun first last => (range first last).replace cell' range') fs := by
  match fs with
  | [] => simp only [replaceAll]
  | x :: xs => simp only [replaceAll, replace_replace x, replaceAll_replaceAll xs]

end

end Replace

/-- Two edits act on a formula as they act on its references. -/
theorem shift_shift_eq_replace (f : Formula) : (f.shift e).shift e' =
    f.replace (fun a => (shiftCell e a).shift e') fun first last => (shiftRange e first last).shift e' := by
  simp only [shift_eq_replace, replace_replace]

theorem shift_missing : missing.shift e = missing := by
  unfold missing
  rw [shift]

theorem shift_shiftCell (a : Address) :
    (shiftCell e a).shift e' = ((a.shift? e).bind (Address.shift? e')).elim missing cell := by
  unfold shiftCell
  cases a.shift? e with
  | none => exact shift_missing
  | some b =>
    dsimp only
    rw [shift, shiftCell, Option.bind_some]
    cases b.shift? e' <;> rfl

theorem shiftCell_eq_elim (a : Address) : shiftCell e a = (a.shift? e).elim missing cell := by
  unfold shiftCell
  cases a.shift? e <;> rfl

/-- The range that stands for a rectangle, or the one that stood there if that has stayed. -/
def placed (stays : Prop) [Decidable stays] (first last : Address) : Option Rectangle → Formula
  | none => missing
  | some moved => if stays then .range first last else .range moved.topLeft moved.bottomRight

theorem placed_congr {stays stays' : Prop} [Decidable stays] [Decidable stays'] (h : stays ↔ stays')
    {first last : Address} {moved : Option Rectangle} :
    placed stays first last moved = placed stays' first last moved := by
  simp only [placed, h]

theorem shiftRange_eq_placed (e : LineEdit) (first last : Address) :
    let r := Rectangle.ofCorners first last
    shiftRange e first last = placed (r.shift? e = some r) first last (r.shift? e) := by
  unfold shiftRange placed
  dsimp only
  cases (Rectangle.ofCorners first last).shift? e with
  | none => rfl
  | some moved => simp only [Option.some.injEq]

/-- A range that two edits have moved keeps its corners as they were written just if neither has moved
it, for the first move puts them in order. -/
theorem shift_shiftRange (first last : Address) :
    let r := Rectangle.ofCorners first last
    (shiftRange e first last).shift e' = placed (r.shift? e = some r ∧ r.shift? e' = some r) first last
      ((r.shift? e).bind (Rectangle.shift? e')) := by
  intro r
  have hordered : r.Ordered := Rectangle.ordered_ofCorners first last
  rw [shiftRange_eq_placed]
  change (placed (r.shift? e = some r) first last (r.shift? e)).shift e' = _
  cases hmoved : r.shift? e with
  | none => exact shift_missing
  | some moved =>
    rw [Option.bind_some]
    unfold placed
    dsimp only
    by_cases hsame : moved = r
    · subst hsame
      rw [if_pos rfl, shift, shiftRange_eq_placed]
      unfold placed
      simp only [true_and]
      rfl
    · have hback := Rectangle.ofCorners_eq_self (hordered.shift? hmoved)
      rw [if_neg (by simpa using hsame), shift, shiftRange_eq_placed, hback]
      unfold placed
      simp only [Option.some.injEq, hsame, false_and, if_false]
      cases hagain : moved.shift? e' with
      | none => rfl
      | some again =>
        dsimp only
        split
        · rename_i hstays
          cases hstays
          rfl
        · rfl

/-- Edits of one kind at one place are one edit. -/
theorem shift_add {axis : Axis} {index n m : Int} (h : 0 < n ∧ 0 < m ∨ n < 0 ∧ m < 0) (f : Formula) :
    (f.shift ⟨axis, index, n⟩).shift ⟨axis, index, m⟩ = f.shift ⟨axis, index, n + m⟩ := by
  rw [shift_shift_eq_replace, shift_eq_replace]
  congr 1
  · funext a
    rw [shift_shiftCell, shiftCell_eq_elim, Address.shift?_add h]
  · funext first last
    have hordered := Rectangle.ordered_ofCorners first last
    rw [shift_shiftRange, shiftRange_eq_placed, Rectangle.shift?_add h hordered]
    refine placed_congr ?_
    rw [hordered.shift?_eq_self_iff (by dsimp only; omega),
      hordered.shift?_eq_self_iff (by dsimp only; omega),
      hordered.shift?_eq_self_iff (by dsimp only; omega), and_self]

/-- Edits of rows and of columns can change places. -/
theorem shift_comm (h : e.axis ≠ e'.axis) (f : Formula) :
    (f.shift e).shift e' = (f.shift e').shift e := by
  rw [shift_shift_eq_replace, shift_shift_eq_replace]
  congr 1
  · funext a
    rw [shift_shiftCell, shift_shiftCell, Address.shift?_comm h]
  · funext first last
    rw [shift_shiftRange, shift_shiftRange, Rectangle.shift?_comm h]
    exact placed_congr and_comm

/-- Two insertions or two deletions of lines at one place change a formula as one of as many lines does,
and of an edit of rows and one of columns either can come first. After any two edits the formula names a
cell where they take it just if it named the cell. -/
theorem shift_shift (f : Formula) :
    (∀ (axis : Axis) (index n m : Int), (0 < n ∧ 0 < m ∨ n < 0 ∧ m < 0) →
      (f.shift ⟨axis, index, n⟩).shift ⟨axis, index, m⟩ = f.shift ⟨axis, index, n + m⟩) ∧
    (∀ index index' n m : Int, (f.shift ⟨.row, index, n⟩).shift ⟨.col, index', m⟩ =
      (f.shift ⟨.col, index', m⟩).shift ⟨.row, index, n⟩) ∧
    ∀ (e e' : LineEdit) (a b c : Address), a.shift? e = some b → b.shift? e' = some c →
      (((f.shift e).shift e').Names c ↔ f.Names a) :=
  ⟨fun _ _ _ _ h => shift_add h f, fun _ _ _ _ => shift_comm (by simp) f,
    fun _ _ _ _ _ hab hbc => (names_shift_iff hbc).trans (names_shift_iff hab)⟩

/-- Three rows deleted in two steps, the first of which deletes a cell and the second one the end of a
range. The last row of the range is left. -/
theorem shift_shift_deletions :
    let f : Formula := .call "SUM" [.cell ⟨1, 0⟩, .range ⟨4, 2⟩ ⟨2, 1⟩]
    let shifted := (f.shift ⟨.row, 1, -1⟩).shift ⟨.row, 1, -2⟩
    shifted = f.shift ⟨.row, 1, -3⟩ ∧ shifted = .call "SUM" [missing, .range ⟨1, 1⟩ ⟨1, 2⟩] ∧
      (shifted.Names ⟨1, 2⟩ ↔ f.Names ⟨4, 2⟩) := by
  intro f shifted
  obtain ⟨hadd, -, hnames⟩ := shift_shift f
  exact ⟨hadd .row 1 (-1) (-2) (.inr (by decide)), rfl, hnames _ _ ⟨4, 2⟩ ⟨3, 2⟩ ⟨1, 2⟩ rfl rfl⟩

end Formula
end Spreadsheet
