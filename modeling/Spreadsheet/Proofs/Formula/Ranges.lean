import Spreadsheet.Proofs.Formula.Transport

/-! The cells of a range after lines were deleted or inserted: those in which the cells of the range end up,
and of the inserted ones those between them. -/
namespace Spreadsheet

/-- Whether a cell lies between two cells of a kind, on a line across the lines that are edited. -/
def Axis.Between (axis : Axis) (p : Address → Prop) (b : Address) : Prop :=
  ∃ a c, p a ∧ p c ∧ axis.across a = axis.across b ∧ axis.across c = axis.across b ∧
    axis.position a < axis.position b ∧ axis.position b < axis.position c

namespace Rectangle

variable {e : LineEdit} {r moved : Rectangle} {b : Address}

/-- Whether a cell of a rectangle ends up in a cell. -/
def Reaches (r : Rectangle) (e : LineEdit) (b : Address) : Prop := ∃ a ∈ r.cells, a.shift? e = some b

/-- Of the cells that are not inserted a moved rectangle holds those that are reached. -/
theorem contains_iff_reaches (hr : r.shift? e = some moved) (hb : ¬e.Inserts (e.axis.position b)) :
    moved.Contains b ↔ r.Reaches e b := by
  obtain ⟨a, ha⟩ := Address.exists_shift?.mpr hb
  rw [contains_shift?_iff hr ha]
  constructor
  · intro hcontains
    exact ⟨a, mem_cells.mpr hcontains, ha⟩
  · rintro ⟨c, hc, hcb⟩
    rw [Address.shift?_injective ha hcb]
    exact mem_cells.mp hc

theorem Reaches.contains (h : r.Reaches e b) (hr : r.shift? e = some moved) : moved.Contains b := by
  obtain ⟨a, ha, hab⟩ := h
  exact (contains_shift?_iff hr hab).mpr (mem_cells.mp ha)

/-- Of the inserted cells a moved rectangle holds those that lie between reached ones: its first and its
last line are not inserted. -/
theorem contains_iff_between (hr : r.shift? e = some moved) (hb : e.Inserts (e.axis.position b)) :
    moved.Contains b ↔ e.axis.Between (r.Reaches e) b := by
  constructor
  · intro hcontains
    obtain ⟨hspan, -⟩ := shift?_eq_some.mp hr
    obtain ⟨⟨hlow, hhigh⟩, hacross⟩ := (contains_iff e.axis).mp hcontains
    have hfirst := LineEdit.moveSpan?_lt_of_inserts hspan hb hlow
    have hlast := LineEdit.le_moveSpan?_of_inserts hspan hb hhigh
    have hreaches : ∀ pos, e.axis.position moved.topLeft ≤ pos → pos ≤ e.axis.position moved.bottomRight →
        ¬e.Inserts pos → r.Reaches e (e.axis.withPosition b pos) := by
      intro pos hpos hpos' hold
      refine (contains_iff_reaches hr (by simpa using hold)).mp ((contains_iff e.axis).mpr ?_)
      simpa using ⟨⟨hpos, hpos'⟩, hacross⟩
    unfold LineEdit.Inserts at hb hreaches
    refine ⟨_, _, hreaches _ (Int.le_refl _) (by omega) (by omega),
      hreaches _ (by omega) (Int.le_refl _) (by omega), by simp, by simp, ?_, ?_⟩
    · rw [Axis.position_withPosition]
      omega
    · rw [Axis.position_withPosition]
      omega
  · rintro ⟨a, c, ha, hc, hacrossa, hacrossc, hab, hbc⟩
    have ha := (contains_iff e.axis).mp (ha.contains hr)
    have hc := (contains_iff e.axis).mp (hc.contains hr)
    rw [contains_iff e.axis]
    omega

theorem mem_cells_shift? (hr : r.shift? e = some moved) : b ∈ moved.cells ↔
    r.Reaches e b ∨ e.Inserts (e.axis.position b) ∧ e.axis.Between (r.Reaches e) b := by
  rw [mem_cells]
  by_cases hb : e.Inserts (e.axis.position b)
  · rw [contains_iff_between hr hb]
    refine ⟨fun h => .inr ⟨hb, h⟩, fun h => h.elim (fun hreaches => ?_) And.right⟩
    obtain ⟨a, -, ha⟩ := hreaches
    exact absurd hb (Address.exists_shift?.mp ⟨a, ha⟩)
  · rw [contains_iff_reaches hr hb]
    exact ⟨.inl, fun h => h.resolve_right fun hinserted => hb hinserted.1⟩

/-- A rectangle ends up nowhere just if all its cells do. -/
theorem Ordered.shift?_eq_none_iff (h : r.Ordered) :
    r.shift? e = none ↔ ∀ a ∈ r.cells, a.shift? e = none := by
  refine ⟨fun hnone a ha => shift?_eq_none_of_contains hnone (mem_cells.mp ha), fun hall => ?_⟩
  by_contra hsome
  obtain ⟨moved, hr⟩ := Option.ne_none_iff_exists'.mp hsome
  -- Where cells are deleted none is inserted, so that the first cell of the moved rectangle is reached.
  have hdeletes := (Address.shift?_eq_none.mp (hall _ (mem_cells.mpr h.contains_topLeft))).1
  have hfirst := (h.shift? hr).contains_topLeft
  rw [contains_iff_reaches hr (by unfold LineEdit.Inserts; omega)] at hfirst
  obtain ⟨a, ha, hreached⟩ := hfirst
  rw [hall a ha] at hreached
  contradiction

end Rectangle

namespace Formula

variable {e : LineEdit}

/-- A range ends up nowhere just if all its cells do. Otherwise it ends up as a range, of the cells in
which its cells end up and of those that are inserted between them. -/
theorem mem_shiftRange (e : LineEdit) (first last : Address) :
    let r := Rectangle.ofCorners first last
    (shiftRange e first last = missing ↔ ∀ a ∈ r.cells, a.shift? e = none) ∧
      (shiftRange e first last ≠ missing → ∃ first' last', shiftRange e first last = .range first' last' ∧
        ∀ b, b ∈ (Rectangle.ofCorners first' last').cells ↔
          r.Reaches e b ∨ e.Inserts (e.axis.position b) ∧ e.axis.Between (r.Reaches e) b) := by
  intro r
  have hnone := (Rectangle.ordered_ofCorners first last).shift?_eq_none_iff (e := e)
  rcases shiftRange_cases e first last with ⟨hmoved, hshift⟩ | ⟨moved, first', last', hmoved, hshift, rfl⟩
  · exact ⟨iff_of_true hshift (hnone.mp hmoved), fun h => absurd hshift h⟩
  · rw [hmoved] at hnone
    refine ⟨iff_of_false ?_ fun hall => ?_, fun _ => ⟨first', last', hshift, fun b => ?_⟩⟩
    · rw [hshift]
      simp [missing]
    · cases hnone.mpr hall
    · exact Rectangle.mem_cells_shift? hmoved

/-- Where a cell ends up is in the new range if and only if the cell was in the old one. -/
theorem mem_cells_iff_shiftRange {first last a b : Address} (hab : a.shift? e = some b) :
    a ∈ (Rectangle.ofCorners first last).cells ↔ ∃ first' last',
      shiftRange e first last = .range first' last' ∧
        b ∈ (Rectangle.ofCorners first' last').cells := by
  rw [Rectangle.mem_cells]
  rcases shiftRange_cases e first last with ⟨hmoved, hshift⟩ | ⟨moved, first', last', hmoved, hshift, rfl⟩
  · rw [hshift]
    refine iff_of_false (fun ha => ?_) (by simp [missing])
    rw [Rectangle.shift?_eq_none_of_contains hmoved ha] at hab
    contradiction
  · rw [hshift, ← Rectangle.contains_shift?_iff hmoved hab]
    simp [Rectangle.mem_cells]

/-- A deletion of lines makes of a range `#REF!` if none of its cells is left, and otherwise a range of
just the cells in which those end up that are left. After an insertion it is a range of the cells in which
its cells end up and of the inserted ones between them. In both cases a cell that is left is in the new
range if and only if it was in the old one. -/
theorem cells_shiftRange (axis : Axis) (index count : Int) (hcount : 1 ≤ count) (first last : Address) :
    let r := Rectangle.ofCorners first last
    let deletion : LineEdit := ⟨axis, index, -count⟩
    let insertion : LineEdit := ⟨axis, index, count⟩
    (shiftRange deletion first last = missing ↔ ∀ a ∈ r.cells, a.shift? deletion = none) ∧
      (shiftRange deletion first last ≠ missing →
        ∃ first' last', shiftRange deletion first last = .range first' last' ∧
          ∀ b, b ∈ (Rectangle.ofCorners first' last').cells ↔ r.Reaches deletion b) ∧
      (∃ first' last', shiftRange insertion first last = .range first' last' ∧
        ∀ b, b ∈ (Rectangle.ofCorners first' last').cells ↔ r.Reaches insertion b ∨
          insertion.Inserts (axis.position b) ∧ axis.Between (r.Reaches insertion) b) ∧
      ∀ e, e = deletion ∨ e = insertion → ∀ a b, a.shift? e = some b →
        (a ∈ r.cells ↔ ∃ first' last', shiftRange e first last = .range first' last' ∧
          b ∈ (Rectangle.ofCorners first' last').cells) := by
  intro r deletion insertion
  obtain ⟨hmissing, hleft⟩ := mem_shiftRange deletion first last
  obtain ⟨hmissing', hleft'⟩ := mem_shiftRange insertion first last
  refine ⟨hmissing, fun h => ?_, hleft' ?_, fun e _ a b hab => ?_⟩
  · obtain ⟨first', last', hshift, hcells⟩ := hleft h
    refine ⟨first', last', hshift, fun b => (hcells b).trans (or_iff_left ?_)⟩
    rintro ⟨⟨hfirst, hlast⟩, -⟩
    have hcount' : deletion.count = -count := rfl
    omega
  · rw [ne_eq, hmissing']
    intro hall
    have hfirst := (Rectangle.ordered_ofCorners first last).contains_topLeft
    have hdeletes := (Address.shift?_eq_none.mp (hall _ (Rectangle.mem_cells.mpr hfirst))).1
    have hcount' : insertion.count = count := rfl
    omega
  · exact mem_cells_iff_shiftRange hab

/-- Rows two and three are deleted from a range with its lower corner first. -/
theorem cells_shiftRange_reversed :
    shiftRange ⟨.row, 1, -2⟩ ⟨3, 0⟩ ⟨0, 1⟩ = .range ⟨0, 0⟩ ⟨1, 1⟩ ∧
      ∀ b, b ∈ (Rectangle.ofCorners ⟨0, 0⟩ ⟨1, 1⟩).cells ↔
        ∃ a ∈ (Rectangle.ofCorners ⟨3, 0⟩ ⟨0, 1⟩).cells, a.shift? ⟨.row, 1, -2⟩ = some b := by
  obtain ⟨-, hleft, -⟩ := cells_shiftRange .row 1 2 (by decide) ⟨3, 0⟩ ⟨0, 1⟩
  obtain ⟨first', last', hshift, hcells⟩ := hleft (by decide)
  cases hshift
  exact ⟨rfl, hcells⟩

end Formula
end Spreadsheet
