import Spreadsheet.Formula.Shift
import Spreadsheet.Proofs.Address.Moves
import Spreadsheet.Proofs.Formula.FarColumns
import Spreadsheet.Proofs.Formula.Parsed

/-! Formulas rewritten after rows or columns moved. The new text denotes the moved tree wherever text can
spell that tree, and the old text stays where nothing in it moves. -/
namespace Spreadsheet

/-! ## Moved references -/

theorem Address.Natural.withPosition {a : Address} (h : a.Natural) {axis : Axis} {p : Int} (hp : 0 ≤ p) :
    (axis.withPosition a p).Natural := by
  cases axis with
  | row => exact ⟨hp, h.2⟩
  | col => exact ⟨h.1, hp⟩

theorem Address.Natural.position {a : Address} (h : a.Natural) (axis : Axis) : 0 ≤ axis.position a := by
  cases axis with
  | row => exact h.1
  | col => exact h.2

theorem Address.Natural.shift? {e : LineEdit} (hindex : 0 ≤ e.index) {a b : Address} (h : a.Natural)
    (hshift : a.shift? e = some b) : b.Natural := by
  obtain ⟨p, hp, rfl⟩ := Option.map_eq_some_iff.mp hshift
  exact h.withPosition (LineEdit.movePosition?_nonneg hindex (h.position e.axis) hp)

/-! ## Moved trees -/

namespace Formula

variable {e : LineEdit}

theorem regular_missing : missing.Regular := Leaves.constant_iff.mpr trivial

theorem regular_shiftCell (hindex : 0 ≤ e.index) {a : Address} (h : a.Natural) :
    (shiftCell e a).Regular := by
  unfold shiftCell
  split
  · rename_i b hb
    exact Leaves.cell_iff.mpr (h.shift? hindex hb)
  · exact regular_missing

theorem regular_shiftRange (hindex : 0 ≤ e.index) {a b : Address} (ha : a.Natural) (hb : b.Natural) :
    (shiftRange e a b).Regular := by
  have hcorner : (Rectangle.ofCorners a b).topLeft.Natural ∧
      (Rectangle.ofCorners a b).bottomRight.Natural ∧
        e.axis.position (Rectangle.ofCorners a b).topLeft ≤
          e.axis.position (Rectangle.ofCorners a b).bottomRight := by
    obtain ⟨hrow, hcol⟩ := ha
    obtain ⟨hrow', hcol'⟩ := hb
    unfold Rectangle.ofCorners Address.Natural
    dsimp only
    cases e.axis <;> simp only [Axis.position] <;> omega
  obtain ⟨hfirst, hlast, hle⟩ := hcorner
  unfold shiftRange
  dsimp only
  split
  · exact regular_missing
  · rename_i moved hmoved
    split
    · exact Leaves.range_iff.mpr ⟨ha, hb⟩
    · obtain ⟨⟨low, high⟩, hspan, rfl⟩ := Option.map_eq_some_iff.mp hmoved
      obtain ⟨hlow, hhigh⟩ :=
        LineEdit.moveSpan?_nonneg hindex (hfirst.position e.axis) hle hspan
      exact Leaves.range_iff.mpr ⟨hfirst.withPosition hlow, hlast.withPosition hhigh⟩

mutual

theorem regular_shift (hindex : 0 ≤ e.index) {f : Formula} (h : f.Regular) : (f.shift e).Regular := by
  match f with
  | .constant v => rwa [shift]
  | .cell a =>
    rw [shift]
    exact regular_shiftCell hindex (Leaves.cell_iff.mp h)
  | .range a b =>
    obtain ⟨ha, hb⟩ := Leaves.range_iff.mp h
    rw [shift]
    exact regular_shiftRange hindex ha hb
  | .unary op x =>
    rw [shift]
    exact Leaves.unary_iff.mpr (regular_shift hindex (Leaves.unary_iff.mp h))
  | .binary op x y =>
    obtain ⟨hx, hy⟩ := Leaves.binary_iff.mp h
    rw [shift]
    exact Leaves.binary_iff.mpr ⟨regular_shift hindex hx, regular_shift hindex hy⟩
  | .call name xs =>
    obtain ⟨hname, hxs⟩ := Leaves.call_iff.mp h
    rw [shift]
    exact Leaves.call_iff.mpr ⟨hname, regular_shiftAll hindex hxs⟩

theorem regular_shiftAll (hindex : 0 ≤ e.index) {fs : List Formula}
    (h : LeavesOfAll Reference.Natural fs) : LeavesOfAll Reference.Natural (shiftAll e fs) := by
  match fs with
  | [] => rwa [shiftAll]
  | x :: xs =>
    obtain ⟨hx, hxs⟩ := leavesOfAll_cons_iff.mp h
    rw [shiftAll]
    exact leavesOfAll_cons_iff.mpr ⟨regular_shift hindex hx, regular_shiftAll hindex hxs⟩

end

theorem height_shiftCell (a : Address) : (shiftCell e a).height = 1 := by
  unfold shiftCell missing
  split <;> rw [height]

theorem height_shiftRange (a b : Address) : (shiftRange e a b).height = 1 := by
  unfold shiftRange missing
  dsimp only
  split
  · rw [height]
  · split <;> rw [height]

mutual

/-- Moved references are leaves like those that they stand for. -/
theorem height_shift (f : Formula) : (f.shift e).height = f.height := by
  match f with
  | .constant v => rw [shift]
  | .cell a => rw [shift, height_shiftCell, height]
  | .range a b => rw [shift, height_shiftRange, height]
  | .unary op x => rw [shift, height, height, height_shift x]
  | .binary op x y => rw [shift, height, height, height_shift x, height_shift y]
  | .call name xs => rw [shift, height, height, heightAll_shiftAll xs]

theorem heightAll_shiftAll (fs : List Formula) : heightAll (shiftAll e fs) = heightAll fs := by
  match fs with
  | [] => rw [shiftAll]
  | x :: xs => rw [shiftAll, heightAll, heightAll, height_shift x, heightAll_shiftAll xs]

end

/-! ## Rewritten text -/

theorem shiftText_eq {s : String} {f : Formula} (h : parse s = .ok f) : shiftText e s =
    if f.shift e = f then .ok s
    else if (f.shift e).isWritable then .ok (f.shift e).text else .error .writing := by
  unfold shiftText
  rw [isFormulaText_of_parse h, h]
  rfl

theorem isWritable_iff {f : Formula} : f.isWritable ↔ ∀ r ∈ f.references, r.isWritable := by
  unfold isWritable
  rw [List.all_eq_true]

/-- The text of a moved tree reads as the moved tree, if text can spell its references. -/
theorem parse_text_shift (hindex : 0 ≤ e.index) {s : String} {f : Formula} (h : parse s = .ok f)
    (hreferences : ∀ r ∈ (f.shift e).references, r.Spellable) :
    parse (f.shift e).text = .ok (f.shift e) := by
  obtain ⟨hregular, hheight⟩ := regular_of_parse h
  obtain ⟨draft, hdraft, hdenotes⟩ := Spellable.draft?_text
    ((regular_shift hindex hregular).mono fun r hr _ => hreferences r hr)
  have hroom : 0 + (f.shift e).height < Draft.maxHeight := by
    rw [height_shift, Nat.zero_add]
    exact hheight
  unfold parse
  rw [hdraft]
  exact hdenotes 0 hroom

/-- The text of a formula is rewritten to one that reads as the moved tree, if nothing moves or text can
spell the moved references. -/
theorem exists_shiftText (hindex : 0 ≤ e.index) {s : String} {f : Formula} (h : parse s = .ok f)
    (hreferences : f.shift e ≠ f → ∀ r ∈ (f.shift e).references, r.Spellable) :
    ∃ t, shiftText e s = .ok t ∧ parse t = .ok (f.shift e) := by
  rw [shiftText_eq h]
  split
  · rename_i hsame
    exact ⟨s, rfl, by rw [h, hsame]⟩
  · rename_i hmoved
    have hrows : (f.shift e).isWritable :=
      isWritable_iff.mpr fun r hr => (hreferences hmoved r hr).isWritable
    exact ⟨_, if_pos hrows, parse_text_shift hindex h (hreferences hmoved)⟩

theorem shiftText_of_malformed {s : String} (h : ∀ f, parse s ≠ .ok f) : shiftText e s = .ok s := by
  unfold shiftText
  split
  · rfl
  split
  · rfl
  · rename_i f hf
    exact absurd hf (h f)

/-- What becomes of the text of a formula. It stays exactly if nothing in its tree moves. Otherwise it is
written anew, and the new text denotes the moved tree if text can spell the references of that tree; it is
no formula at all if one of them lies in a column of more than three letters, and there is no new text if
a row is too long to write. -/
theorem shiftText_of_parse (hindex : 0 ≤ e.index) {s : String} {f : Formula} (h : parse s = .ok f) :
    (f.shift e = f → shiftText e s = .ok s) ∧
    (f.shift e ≠ f →
      ((∀ r ∈ (f.shift e).references, r.Spellable) →
        ∃ t ≠ s, shiftText e s = .ok t ∧ parse t = .ok (f.shift e)) ∧
      ((∀ r ∈ (f.shift e).references, r.isWritable) → (∃ r ∈ (f.shift e).references, r.IsFar) →
        ∃ t ≠ s, shiftText e s = .ok t ∧ ∃ error, parse t = .error error) ∧
      ((∃ r ∈ (f.shift e).references, r.isWritable = false) → shiftText e s = .error .writing)) := by
  have hshift := shiftText_eq (e := e) h
  obtain ⟨hregular, -⟩ := regular_of_parse h
  refine ⟨fun hsame => by rw [hshift, if_pos hsame], fun hmoved => ⟨?_, ?_, ?_⟩⟩
  · intro hreferences
    have hrows : (f.shift e).isWritable :=
      isWritable_iff.mpr fun r hr => (hreferences r hr).isWritable
    have hparse := parse_text_shift hindex h hreferences
    refine ⟨(f.shift e).text, ?_, by rw [hshift, if_neg hmoved, if_pos hrows], hparse⟩
    intro htext
    rw [htext, h] at hparse
    exact hmoved (Except.ok.inj hparse).symm
  · intro hrows hfar
    obtain ⟨error, herror⟩ :=
      Regular.parse_text_error (regular_shift hindex hregular) hrows hfar
    refine ⟨(f.shift e).text, ?_, by rw [hshift, if_neg hmoved, if_pos (isWritable_iff.mpr hrows)],
      error, herror⟩
    intro htext
    rw [htext, h] at herror
    contradiction
  · rintro ⟨r, hr, hrow⟩
    have hrows : ¬(f.shift e).isWritable := fun hall => by
      rw [isWritable_iff.mp hall r hr] at hrow
      contradiction
    rw [hshift, if_neg hmoved, if_neg hrows]

/-- A reference by numbers reaches past the columns that letters name, and when another reference of the
formula moves it is written with four letters, which no reader takes for a reference. -/
theorem shiftText_of_parse_four_letters :
    parse "=R1C18279 + A1" = .ok (.binary .add (.cell ⟨0, 18278⟩) (.cell ⟨0, 0⟩)) ∧
      ∃ t ≠ "=R1C18279 + A1", shiftText ⟨.row, 0, 1⟩ "=R1C18279 + A1" = .ok t ∧
        ∃ error, parse t = .error error := by
  have hparse : parse "=R1C18279 + A1" = .ok (.binary .add (.cell ⟨0, 18278⟩) (.cell ⟨0, 0⟩)) :=
    eq_ok_of_toOption (by decide +kernel)
  have hmoved : (binary .add (.cell ⟨0, 18278⟩) (.cell ⟨0, 0⟩)).shift ⟨.row, 0, 1⟩ ≠
      .binary .add (.cell ⟨0, 18278⟩) (.cell ⟨0, 0⟩) := by decide
  have hrewritten := (shiftText_of_parse (Int.le_refl 0) hparse).2 hmoved
  exact ⟨hparse, hrewritten.2.1 (by decide +kernel) ⟨.cell ⟨1, 18278⟩, by decide, Int.le_refl 18278⟩⟩

end Formula
end Spreadsheet
