import Spreadsheet.Proofs.Formula.Rewriting
import Spreadsheet.Proofs.Formula.Transport
import Spreadsheet.Proofs.Sheet.History

/-! What the rewritten texts of an edit of rows or columns are taken for: what the old ones were taken
for, carried along. A cell ends up inside the new bounds just if it lay inside the old ones. -/
namespace Spreadsheet

/-- A text that shows something does so when it is rewritten. -/
theorem Formula.visible_shiftText {e : LineEdit} {s t : String} (h : shiftText e s = .ok t)
    (hvisible : Text.isAllBlank s = false) : Text.isAllBlank t = false := by
  unfold shiftText at h
  split at h
  · cases h
    exact hvisible
  split at h
  · cases h
    exact hvisible
  dsimp only at h
  split at h
  · cases h
    exact hvisible
  split at h
  · cases h
    unfold text Text.isAllBlank
    rw [String.toList_ofList, List.all_cons]
    rfl
  · contradiction

namespace Formula

variable {e : LineEdit} {s : String} {f : Formula}

/-- Text can spell moved references if three letters suffice for their columns and their rows can be
written. -/
theorem spellable_shift (hindex : 0 ≤ e.index) (h : parse s = .ok f)
    (hreferences : ∀ r ∈ (f.shift e).references, ¬r.IsFar ∧ r.isWritable) :
    ∀ r ∈ (f.shift e).references, r.Spellable := by
  intro r hr
  have hregular := regular_shift hindex (regular_of_parse h).1
  exact Reference.spellable_of_near (hregular.references r hr) (hreferences r hr).2 (hreferences r hr).1

theorem Reference.isWritable_iff_corners (r : Reference) :
    r.isWritable ↔ r.Corners (·.isWritable) := by
  cases r with
  | cell a => rfl
  | range first last => exact isWritable_range

theorem Reference.Natural.spellable_iff_corners_le {r : Reference} (h : r.Natural) : r.Spellable ↔
    r.Corners fun a =>
      a.row ≤ Number.tenTo Number.maxDigits - 2 ∧ a.col ≤ Address.columnsWithin 3 - 1 := by
  cases r with
  | cell a => exact Address.Natural.spellable_iff_le h
  | range first last =>
    exact and_congr (Address.Natural.spellable_iff_le h.1) (Address.Natural.spellable_iff_le h.2)

/-- Text can spell references after a deletion if it could before. -/
theorem spellable_shift_of_count_nonpos (hindex : 0 ≤ e.index) (hcount : e.count ≤ 0)
    (h : parse s = .ok f) (hnear : ∀ r ∈ f.references, ¬r.IsFar) :
    ∀ r ∈ (f.shift e).references, r.Spellable := by
  have hregular := (regular_of_parse h).1
  intro r' hr'
  have hnat' := (regular_shift hindex hregular).references r' hr'
  rw [references_shift] at hr'
  obtain ⟨r, hr, hshift⟩ := List.mem_filterMap.mp hr'
  have hnat := hregular.references r hr
  have hrows : r.isWritable := r.isWritable_iff_corners.mpr (isWritable_of_parse h r hr)
  have hspellable := Reference.spellable_of_near hnat hrows (hnear r hr)
  rw [hnat.spellable_iff_corners_le] at hspellable
  exact hnat'.spellable_iff_corners_le.mpr (Reference.corners_shift?_le hcount hshift hspellable)

end Formula

/-! ## Kinds -/

/-- Whether no cell that a formula names is deleted, and text can spell what becomes of its references,
if they move. -/
structure Formula.Kept (e : LineEdit) (f : Formula) : Prop where
  left : ∀ a, f.Names a → ∃ b, a.shift? e = some b
  spelled : f.shift e ≠ f → ∀ r ∈ (f.shift e).references, r.Spellable

namespace Cell.Kind

variable {e : LineEdit}

/-- What a content is taken for after an edit of lines. -/
def shift (e : LineEdit) : Kind → Kind
  | .formula f => .formula (f.shift e)
  | kind => kind

theorem shift_ne_cycle {kind : Kind} (h : kind ≠ .rejected .cycle) :
    kind.shift e ≠ .rejected .cycle := by
  cases kind with
  | constant => simp [shift]
  | formula f => simp [shift]
  | rejected reason => exact h

theorem reason?_shift (kind : Kind) : (kind.shift e).reason? = kind.reason? := by
  cases kind <;> rfl

theorem rejection?_shift {c c' : Cell} (h : c'.kind = c.kind.shift e) :
    c'.rejection? = c.rejection? := by
  unfold rejection?
  rw [h]
  cases c.kind <;> rfl

theorem formula?_shift {c c' : Cell} (h : c'.kind = c.kind.shift e) :
    c'.formula? = c.formula?.map (Formula.shift e) := by
  unfold formula?
  rw [h]
  cases c.kind <;> rfl

/-- A rewritten text is taken for what the old one was taken for, carried along. -/
theorem Fits.shift {l : Limits} {content : String} {kind : Kind} (h : kind.Fits l content)
    (hcycle : kind ≠ .rejected .cycle) (hindex : 0 ≤ e.index)
    (hkept : ∀ f, Formula.parse content = .ok f → f.Kept e)
    (hsized : ∀ f, kind = .formula f → (f.shift e).oversized? l.rangeCells = none) :
    ∃ text, Formula.shiftText e content = .ok text ∧ (kind.shift e).Fits (l.edit e) text ∧
      (kind = .constant → text = content) := by
  have hrewrite : ∀ f, Formula.parse content = .ok f →
      ∃ text, Formula.shiftText e content = .ok text ∧ Formula.isFormulaText text ∧
        Formula.parse text = .ok (f.shift e) := by
    intro f hf
    obtain ⟨text, htext, hparse⟩ := Formula.exists_shiftText hindex hf (hkept f hf).spelled
    exact ⟨text, htext, Formula.isFormulaText_of_parse hparse, hparse⟩
  unfold Fits at h
  split at h
  · exact ⟨content, by rw [Formula.shiftText, h]; rfl, h, fun _ => rfl⟩
  · rename_i f
    obtain ⟨text, htext, hformula, hparse⟩ := hrewrite f h.2.1
    refine ⟨text, htext, ⟨hformula, hparse, ?_⟩, fun heq => by cases heq⟩
    rw [Limits.rangeCells_edit]
    exact hsized f rfl
  · obtain ⟨hformula, error, herror⟩ := h
    refine ⟨content, ?_, ⟨hformula, error, herror⟩, fun _ => rfl⟩
    rw [Formula.shiftText, hformula, herror]
    rfl
  · obtain ⟨-, f, corners, hparse, hlarge⟩ := h
    obtain ⟨text, htext, hformula, hparse'⟩ := hrewrite f hparse
    cases hsize : (f.shift e).oversized? l.rangeCells with
    | none =>
      rw [Formula.oversized?_of_shift (hkept f hparse).left hsize] at hlarge
      contradiction
    | some corners' =>
      refine ⟨text, htext, ⟨hformula, f.shift e, corners', hparse', ?_⟩, fun heq => by cases heq⟩
      rwa [Limits.rangeCells_edit]
  · exact absurd rfl hcycle
  · contradiction

end Cell.Kind

namespace Sheet

variable {s : Sheet} {e : LineEdit}

/-! ## Bounds -/

/-- Whether an edit of lines lies inside a sheet and leaves a line of it. -/
structure Admits (s : Sheet) (e : LineEdit) : Prop where
  index_nonneg : 0 ≤ e.index
  index_le : e.index ≤ s.lineCount e.axis
  last : 0 < e.count ∨ e.stop ≤ s.lineCount e.axis
  rest : 0 < s.lineCount e.axis + e.count

theorem contains_iff (axis : Axis) {a : Address} : s.bounds.contains a ↔
    axis.position a < s.lineCount axis ∧ axis.across a < s.lineCount axis.other := by
  unfold bounds Bounds.contains Address.isBelow
  simp only [Option.all_some, Bool.and_eq_true, decide_eq_true_eq]
  cases axis
  · rfl
  · exact And.comm

theorem Admits.lineCount (h : s.Admits e) :
    (s.emptied e).lineCount e.axis = s.lineCount e.axis + e.count := by
  have hrest := h.rest
  unfold emptied Limits.edit LineEdit.resize
  cases haxis : e.axis <;> simp only [haxis, Sheet.lineCount] at hrest ⊢ <;> omega

theorem lineCount_emptied_other : (s.emptied e).lineCount e.axis.other = s.lineCount e.axis.other := by
  unfold emptied Limits.edit
  cases e.axis <;> rfl

/-- A cell ends up inside the new bounds just if it lay inside the old ones. -/
theorem Admits.contains_iff (h : s.Admits e) {a b : Address} (ha : a.shift? e = some b) :
    (s.emptied e).bounds.contains b ↔ s.bounds.contains a := by
  rw [Sheet.contains_iff e.axis, Sheet.contains_iff e.axis, h.lineCount, lineCount_emptied_other]
  obtain ⟨hpos, hacross⟩ := Address.shift?_eq_some.mp ha
  rw [LineEdit.movePosition?_eq_some] at hpos
  have hindex := h.index_le
  have hlast := h.last
  unfold LineEdit.stop at hpos hlast
  omega

/-- Inserted lines are as long as the others. -/
theorem Admits.contains_inserted (h : s.Admits e) {b c : Address}
    (hb : e.Inserts (e.axis.position b)) (hacross : e.axis.across c = e.axis.across b)
    (hc : (s.emptied e).bounds.contains c) : (s.emptied e).bounds.contains b := by
  rw [Sheet.contains_iff e.axis, h.lineCount, lineCount_emptied_other] at hc ⊢
  have hindex := h.index_le
  unfold LineEdit.Inserts at hb
  omega

end Sheet
end Spreadsheet
