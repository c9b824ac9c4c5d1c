import Mathlib.Data.List.Sort
import Spreadsheet.Address.LineEdit
import Spreadsheet.Proofs.Address.Rectangle

/-! Where cells end up when rows or columns are inserted or deleted. No two of them end up in one place,
they keep their order, and where none ends up a line was inserted. A rectangle goes along with its
cells. -/
namespace Spreadsheet

namespace LineEdit

variable {e : LineEdit} {p p' q q' : Int}

/-- Whether a line is one of those that an edit inserts. -/
def Inserts (e : LineEdit) (pos : Int) : Prop := e.index ≤ pos ∧ pos < e.index + e.count

instance (e : LineEdit) : DecidablePred e.Inserts := fun _ => inferInstanceAs (Decidable (_ ∧ _))

theorem movePosition?_eq_some : e.movePosition? p = some q ↔
    p < e.index ∧ q = p ∨ e.index ≤ p ∧ (e.count < 0 → e.stop ≤ p) ∧ q = p + e.count := by
  unfold movePosition?
  split
  · rw [Option.some.injEq]
    omega
  split
  · simp only [reduceCtorEq, false_iff]
    omega
  · rw [Option.some.injEq]
    omega

theorem movePosition?_eq_none :
    e.movePosition? p = none ↔ e.count < 0 ∧ e.index ≤ p ∧ p < e.stop := by
  rw [Option.eq_none_iff_forall_ne_some]
  simp only [ne_eq, movePosition?_eq_some]
  constructor
  · intro h
    have hstays := h p
    have hmoves := h (p + e.count)
    omega
  · omega

/-- The edit that deletes what another one inserts. -/
def undo (e : LineEdit) : LineEdit := ⟨e.axis, e.index, -e.count⟩

theorem movePosition?_undo (he : 0 < e.count) :
    e.undo.movePosition? q = some p ↔ e.movePosition? p = some q := by
  rw [movePosition?_eq_some, movePosition?_eq_some]
  unfold undo stop
  dsimp only
  omega

theorem movePosition?_lt_iff (h : e.movePosition? p = some q) (h' : e.movePosition? p' = some q') :
    q < q' ↔ p < p' := by
  rw [movePosition?_eq_some] at h h'
  unfold stop at h h'
  omega

/-- Where no line ends up one is inserted. -/
theorem exists_movePosition? : (∃ p, e.movePosition? p = some q) ↔ ¬e.Inserts q := by
  simp only [movePosition?_eq_some]
  unfold Inserts stop
  constructor
  · rintro ⟨p, hp⟩
    omega
  · intro h
    by_cases hq : q < e.index
    · exact ⟨q, by omega⟩
    · exact ⟨q - e.count, by omega⟩

theorem moveSpan?_eq_none {low high : Int} :
    e.moveSpan? low high = none ↔ e.count ≤ 0 ∧ e.index ≤ low ∧ high < e.stop := by
  unfold moveSpan?
  grind

/-- A span holds where a line ends up just if it held the line. -/
theorem moveSpan?_contains {low high low' high' : Int}
    (h : e.moveSpan? low high = some (low', high')) (hp : e.movePosition? p = some q) :
    low' ≤ q ∧ q ≤ high' ↔ low ≤ p ∧ p ≤ high := by
  unfold movePosition? stop at hp
  unfold moveSpan? stop at h
  grind

theorem moveSpan?_le {low high low' high' : Int} (hle : low ≤ high)
    (h : e.moveSpan? low high = some (low', high')) : low' ≤ high' := by
  unfold moveSpan? stop at h
  grind

/-- A deletion makes no span longer. -/
theorem length_moveSpan?_le (he : e.count ≤ 0) {low high low' high' : Int} (hle : low ≤ high)
    (h : e.moveSpan? low high = some (low', high')) : high' - low' ≤ high - low := by
  unfold moveSpan? stop at h
  grind

/-- A deletion moves nothing to a farther line. -/
theorem movePosition?_le (he : e.count ≤ 0) (h : e.movePosition? p = some q) : q ≤ p := by
  rw [movePosition?_eq_some] at h
  omega

theorem moveSpan?_le_high (he : e.count ≤ 0) {low high low' high' : Int}
    (h : e.moveSpan? low high = some (low', high')) : high' ≤ high := by
  unfold moveSpan? stop at h
  grind

/-- A span of which no line is deleted becomes no shorter. -/
theorem le_length_moveSpan? {low high low' high' : Int} (hle : low ≤ high)
    (hleft : ∀ p, low ≤ p → p ≤ high → e.movePosition? p ≠ none)
    (h : e.moveSpan? low high = some (low', high')) : high - low ≤ high' - low' := by
  have hfirst := hleft low (Int.le_refl low) hle
  have hlast := hleft high hle (Int.le_refl high)
  have hindex := hleft e.index
  rw [ne_eq, movePosition?_eq_none] at hfirst hlast
  simp only [ne_eq, movePosition?_eq_none] at hindex
  unfold stop at hfirst hlast hindex
  unfold moveSpan? stop at h
  grind

/-- An inserted line inside a span comes after the first line of the span. -/
theorem moveSpan?_lt_of_inserts {low high low' high' : Int}
    (h : e.moveSpan? low high = some (low', high')) (hp : e.Inserts p) (hlow : low' ≤ p) :
    low' < e.index := by
  unfold Inserts at hp
  unfold moveSpan? at h
  grind

/-- An inserted line inside a span comes before the last line of the span. -/
theorem le_moveSpan?_of_inserts {low high low' high' : Int}
    (h : e.moveSpan? low high = some (low', high')) (hp : e.Inserts p) (hhigh : p ≤ high') :
    e.index + e.count ≤ high' := by
  unfold Inserts at hp
  unfold moveSpan? at h
  grind

theorem movePosition?_nonneg (hindex : 0 ≤ e.index) (hp : 0 ≤ p) (h : e.movePosition? p = some q) :
    0 ≤ q := by
  unfold movePosition? stop at h
  grind

theorem moveSpan?_nonneg (hindex : 0 ≤ e.index) {low high low' high' : Int} (hlow : 0 ≤ low)
    (hle : low ≤ high) (h : e.moveSpan? low high = some (low', high')) : 0 ≤ low' ∧ 0 ≤ high' := by
  unfold moveSpan? stop at h
  grind

end LineEdit

namespace Axis

def other : Axis → Axis
  | .row => .col
  | .col => .row

/-- The position of a cell along its line. -/
def across : Axis → Address → Int
  | .row, a => a.col
  | .col, a => a.row

variable {axis : Axis} {a b : Address} {pos : Int}

theorem ext_position (axis : Axis) (hposition : axis.position a = axis.position b)
    (hacross : axis.across a = axis.across b) : a = b := by
  cases a
  cases b
  cases axis <;> simp_all [position, across]

@[simp] theorem position_withPosition : axis.position (axis.withPosition a pos) = pos := by
  cases axis <;> rfl

@[simp] theorem across_withPosition : axis.across (axis.withPosition a pos) = axis.across a := by
  cases axis <;> rfl

end Axis

namespace Address

variable {e : LineEdit} {a b c d : Address}

theorem shift?_eq_some : a.shift? e = some b ↔
    e.movePosition? (e.axis.position a) = some (e.axis.position b) ∧
      e.axis.across b = e.axis.across a := by
  unfold shift?
  rw [Option.map_eq_some_iff]
  constructor
  · rintro ⟨pos, hpos, rfl⟩
    simpa using hpos
  · rintro ⟨hpos, hacross⟩
    exact ⟨_, hpos, Axis.ext_position e.axis (by simp) (by simp [hacross])⟩

theorem shift?_eq_none : a.shift? e = none ↔
    e.count < 0 ∧ e.index ≤ e.axis.position a ∧ e.axis.position a < e.stop := by
  unfold shift?
  rw [Option.map_eq_none_iff, LineEdit.movePosition?_eq_none]

theorem shift?_precedes_iff (ha : a.shift? e = some b) (hc : c.shift? e = some d) :
    b.Precedes d ↔ a.Precedes c := by
  rw [shift?_eq_some] at ha hc
  have hlt := LineEdit.movePosition?_lt_iff ha.1 hc.1
  have hgt := LineEdit.movePosition?_lt_iff hc.1 ha.1
  unfold Precedes
  cases haxis : e.axis <;> simp only [haxis, Axis.position, Axis.across] at ha hc hlt hgt <;> omega

theorem eq_of_not_precedes (hab : ¬a.Precedes b) (hba : ¬b.Precedes a) : a = b := by
  cases a
  cases b
  simp only [Precedes, mk.injEq] at hab hba ⊢
  omega

/-- No two cells end up in one place. -/
theorem shift?_injective (ha : a.shift? e = some c) (hb : b.shift? e = some c) : a = b := by
  have hirrefl : ¬c.Precedes c := by simp [Precedes]
  apply eq_of_not_precedes
  · rwa [← shift?_precedes_iff ha hb]
  · rwa [← shift?_precedes_iff hb ha]

/-- Where no cell ends up a line is inserted. -/
theorem exists_shift? : (∃ a : Address, a.shift? e = some b) ↔ ¬e.Inserts (e.axis.position b) := by
  rw [← LineEdit.exists_movePosition?]
  constructor
  · rintro ⟨a, ha⟩
    exact ⟨_, (shift?_eq_some.mp ha).1⟩
  · rintro ⟨pos, hpos⟩
    refine ⟨e.axis.withPosition b pos, shift?_eq_some.mpr ⟨?_, ?_⟩⟩ <;> simp [hpos]

/-- To delete inserted lines takes every cell back. -/
theorem shift?_undo (he : 0 < e.count) : b.shift? e.undo = some a ↔ a.shift? e = some b := by
  rw [shift?_eq_some, shift?_eq_some, LineEdit.movePosition?_undo he]
  unfold LineEdit.undo
  rw [eq_comm (a := Axis.across _ a)]

/-- Insertions delete nothing. -/
theorem exists_shift?_eq_some (he : 0 ≤ e.count) (a : Address) : ∃ b, a.shift? e = some b := by
  rw [← Option.isSome_iff_exists, Option.isSome_iff_ne_none, ne_eq, shift?_eq_none]
  omega

/-- A deletion moves no cell to a farther row or column. -/
theorem shift?_le (he : e.count ≤ 0) (h : a.shift? e = some b) : b.row ≤ a.row ∧ b.col ≤ a.col := by
  obtain ⟨hpos, hacross⟩ := shift?_eq_some.mp h
  have hle := LineEdit.movePosition?_le he hpos
  cases haxis : e.axis <;> simp only [haxis, Axis.position, Axis.across] at hacross hle <;> omega

end Address

namespace Rectangle

variable {e : LineEdit} {r moved : Rectangle} {a b : Address}

/-- Whether the corners of a rectangle come in order, so that it holds at least one cell. -/
def Ordered (r : Rectangle) : Prop :=
  r.topLeft.row ≤ r.bottomRight.row ∧ r.topLeft.col ≤ r.bottomRight.col

theorem ordered_ofCorners (a b : Address) : (ofCorners a b).Ordered := by
  simp only [Ordered, ofCorners]
  omega

theorem Ordered.contains_topLeft (h : r.Ordered) : r.Contains r.topLeft :=
  ⟨Int.le_refl _, h.1, Int.le_refl _, h.2⟩

theorem ofCorners_eq_self (h : r.Ordered) : ofCorners r.topLeft r.bottomRight = r := by
  unfold Ordered at h
  unfold ofCorners
  rw [Int.min_eq_left h.1, Int.min_eq_left h.2, Int.max_eq_right h.1, Int.max_eq_right h.2]

theorem ordered_iff (axis : Axis) : r.Ordered ↔
    axis.position r.topLeft ≤ axis.position r.bottomRight ∧
      axis.across r.topLeft ≤ axis.across r.bottomRight := by
  cases axis
  · rfl
  · exact And.comm

theorem contains_iff (axis : Axis) : r.Contains a ↔
    (axis.position r.topLeft ≤ axis.position a ∧ axis.position a ≤ axis.position r.bottomRight) ∧
      axis.across r.topLeft ≤ axis.across a ∧ axis.across a ≤ axis.across r.bottomRight := by
  unfold Contains
  cases axis <;> simp only [Axis.position, Axis.across] <;> omega

theorem shift?_eq_some : r.shift? e = some moved ↔
    e.moveSpan? (e.axis.position r.topLeft) (e.axis.position r.bottomRight) =
        some (e.axis.position moved.topLeft, e.axis.position moved.bottomRight) ∧
      e.axis.across moved.topLeft = e.axis.across r.topLeft ∧
        e.axis.across moved.bottomRight = e.axis.across r.bottomRight := by
  unfold shift?
  rw [Option.map_eq_some_iff]
  constructor
  · rintro ⟨span, hspan, rfl⟩
    simpa using hspan
  · rintro ⟨hspan, hfirst, hlast⟩
    refine ⟨_, hspan, ?_⟩
    cases moved
    rw [Rectangle.mk.injEq]
    exact ⟨Axis.ext_position e.axis (by simp) (by simp [hfirst]),
      Axis.ext_position e.axis (by simp) (by simp [hlast])⟩

theorem Ordered.shift? (h : r.Ordered) (hr : r.shift? e = some moved) : moved.Ordered := by
  rw [ordered_iff e.axis] at h ⊢
  obtain ⟨hspan, hfirst, hlast⟩ := shift?_eq_some.mp hr
  exact ⟨LineEdit.moveSpan?_le h.1 hspan, by omega⟩

/-- A moved rectangle holds where a cell ends up just if the old one held the cell. -/
theorem contains_shift?_iff (hr : r.shift? e = some moved) (ha : a.shift? e = some b) :
    moved.Contains b ↔ r.Contains a := by
  obtain ⟨hspan, hfirst, hlast⟩ := shift?_eq_some.mp hr
  obtain ⟨hpos, hacross⟩ := Address.shift?_eq_some.mp ha
  rw [contains_iff e.axis, contains_iff e.axis, LineEdit.moveSpan?_contains hspan hpos, hfirst, hlast,
    hacross]

/-- Only a rectangle all of whose cells are deleted ends up nowhere. -/
theorem shift?_eq_none_of_contains (hr : r.shift? e = none) (ha : r.Contains a) :
    a.shift? e = none := by
  unfold shift? at hr
  rw [Option.map_eq_none_iff, LineEdit.moveSpan?_eq_none] at hr
  rw [contains_iff e.axis] at ha
  rw [Address.shift?_eq_none]
  unfold LineEdit.stop at hr ⊢
  omega

theorem area_eq (axis : Axis) : r.area =
    (axis.position r.bottomRight - axis.position r.topLeft + 1) *
      (axis.across r.bottomRight - axis.across r.topLeft + 1) := by
  cases axis
  · rfl
  · exact Int.mul_comm _ _

/-- A deletion makes no rectangle larger. -/
theorem area_shift?_le (he : e.count ≤ 0) (h : r.Ordered) (hr : r.shift? e = some moved) :
    moved.area ≤ r.area := by
  obtain ⟨hspan, hfirst, hlast⟩ := shift?_eq_some.mp hr
  rw [ordered_iff e.axis] at h
  rw [area_eq e.axis, area_eq e.axis, hfirst, hlast]
  have hlength := LineEdit.length_moveSpan?_le he h.1 hspan
  exact Int.mul_le_mul_of_nonneg_right (by omega) (by omega)

theorem bottomRight_shift?_le (he : e.count ≤ 0) (hr : r.shift? e = some moved) :
    moved.bottomRight.row ≤ r.bottomRight.row ∧ moved.bottomRight.col ≤ r.bottomRight.col := by
  obtain ⟨hspan, -, hlast⟩ := shift?_eq_some.mp hr
  have hle := LineEdit.moveSpan?_le_high he hspan
  cases haxis : e.axis <;> simp only [haxis, Axis.position, Axis.across] at hlast hle <;> omega

/-- A rectangle of which no cell is deleted becomes no smaller. -/
theorem le_area_shift? (h : r.Ordered) (hleft : ∀ a, r.Contains a → ∃ b, a.shift? e = some b)
    (hr : r.shift? e = some moved) : r.area ≤ moved.area := by
  obtain ⟨hspan, hfirst, hlast⟩ := shift?_eq_some.mp hr
  rw [ordered_iff e.axis] at h
  rw [area_eq e.axis, area_eq e.axis, hfirst, hlast]
  have hlength := LineEdit.le_length_moveSpan? h.1 (fun p hlow hhigh hnone => ?_) hspan
  · exact Int.mul_le_mul_of_nonneg_right (by omega) (by omega)
  · obtain ⟨b, hb⟩ := hleft (e.axis.withPosition r.topLeft p) (by
      rw [contains_iff e.axis]
      simpa using ⟨⟨hlow, hhigh⟩, h.2⟩)
    have hpos := (Address.shift?_eq_some.mp hb).1
    rw [Axis.position_withPosition, hnone] at hpos
    contradiction

/-- A moved rectangle has the moved cells of the old one in their order, with new ones between them. -/
theorem cells_shift? (hr : r.shift? e = some moved) :
    moved.cells.filter (fun b => ¬e.Inserts (e.axis.position b)) = r.cells.filterMap (·.shift? e) := by
  have hirrefl : Std.Irrefl Address.Precedes := ⟨fun a => by simp [Address.Precedes]⟩
  have hasymm : Std.Asymm Address.Precedes := ⟨fun a b => by unfold Address.Precedes; omega⟩
  refine List.Pairwise.eq_of_mem_iff (r := Address.Precedes) ((pairwise_cells moved).filter _) ?_ ?_
  · refine List.Pairwise.filterMap _ ?_ (pairwise_cells r)
    intro a c hac b hb d hd
    exact (Address.shift?_precedes_iff hb hd).mpr hac
  · intro b
    rw [List.mem_filter, mem_cells, List.mem_filterMap, decide_eq_true_eq, ← Address.exists_shift?]
    constructor
    · rintro ⟨hb, a, ha⟩
      exact ⟨a, mem_cells.mpr ((contains_shift?_iff hr ha).mp hb), ha⟩
    · rintro ⟨a, hmem, ha⟩
      exact ⟨(contains_shift?_iff hr ha).mpr (mem_cells.mp hmem), a, ha⟩

end Rectangle
end Spreadsheet
