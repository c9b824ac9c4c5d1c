import Spreadsheet.Proofs.Address.Moves
import Spreadsheet.Proofs.Sheet.Staging
import Spreadsheet.Sheet.Lines

/-! The contents that an edit of rows or columns enters anew: the rewritten texts of the cells that are
left, at the places where these end up. -/
namespace Spreadsheet

namespace Limits

variable {e : LineEdit} {l : Limits}

@[simp] theorem rangeCells_edit : (l.edit e).rangeCells = l.rangeCells := by
  unfold edit
  cases e.axis <;> rfl

@[simp] theorem precision_edit : (l.edit e).precision = l.precision := by
  unfold edit
  cases e.axis <;> rfl

@[simp] theorem tells_edit {a : Address} {reason : ErrorKind} :
    (l.edit e).tells a reason = l.tells a reason := by
  unfold tells
  rw [rangeCells_edit]

end Limits

namespace Sheet

variable {s : Sheet} {e : LineEdit} {contents : AddressMap String}

theorem moveContent_eq_ok {a : Address} {content : String} {place : Option (Address × String)}
    (h : moveContent e a content = .ok place) :
    (a.shift? e = none ∧ place = none) ∨
      ∃ b text, a.shift? e = some b ∧ Formula.shiftText e content = .ok text ∧
        place = some (b, text) := by
  unfold moveContent at h
  split at h
  · rename_i hdeleted
    cases h
    exact .inl ⟨hdeleted, rfl⟩
  · rename_i b hb
    obtain ⟨text, htext, rfl⟩ := map_eq_ok.mp h
    exact .inr ⟨b, text, hb, htext, rfl⟩

private theorem foldlM_moveContent {items : List (Address × Cell)} {start : AddressMap String}
    (hnodup : (items.map Prod.fst).Nodup)
    (h : items.foldlM (fun moved (a, c) => do
      match ← moveContent e a c.content with
      | none => return moved
      | some (b, content) => return moved.insert b content) start = .ok contents) (b : Address) :
    (∀ item ∈ items, item.1.shift? e = some b →
      ∃ text, Formula.shiftText e item.2.content = .ok text ∧ contents[b]? = some text) ∧
    ((∀ item ∈ items, item.1.shift? e ≠ some b) → contents[b]? = start[b]?) := by
  induction items generalizing start with
  | nil =>
    cases h
    exact ⟨by simp, fun _ => rfl⟩
  | cons item items ih =>
    obtain ⟨a, c⟩ := item
    obtain ⟨hfresh, hnodup⟩ := List.nodup_cons.mp hnodup
    rw [List.foldlM_cons] at h
    obtain ⟨next, hnext, hrest⟩ := bind_eq_ok.mp h
    obtain ⟨place, hplace, hnext⟩ := bind_eq_ok.mp hnext
    obtain ⟨hmoved, hkept⟩ := ih hnodup hrest
    -- no later cell ends up where this one does
    have hlater : a.shift? e = some b → ∀ item ∈ items, item.1.shift? e ≠ some b := by
      intro ha item hitem hb
      have hsame := Address.shift?_injective ha hb
      exact hfresh (List.mem_map.mpr ⟨item, hitem, hsame.symm⟩)
    have hother : a.shift? e ≠ some b → next[b]? = start[b]? := by
      intro ha
      rcases moveContent_eq_ok hplace with ⟨-, rfl⟩ | ⟨d, text, hd, -, rfl⟩
      · cases hnext
        rfl
      · cases hnext
        rw [Std.ExtTreeMap.getElem?_insert, if_neg]
        rw [Std.LawfulEqOrd.compare_eq_iff_eq]
        rintro rfl
        exact ha hd
    refine ⟨fun item hitem hb => ?_, fun hnone => ?_⟩
    · rcases List.mem_cons.mp hitem with rfl | hitem
      · rcases moveContent_eq_ok hplace with ⟨ha, -⟩ | ⟨d, text, hd, htext, rfl⟩
        · rw [ha] at hb
          contradiction
        · cases hnext
          rw [hd] at hb
          cases hb
          refine ⟨text, htext, ?_⟩
          rw [hkept (hlater hd), Std.ExtTreeMap.getElem?_insert_self]
      · exact hmoved item hitem hb
    · rw [hkept fun item hitem => hnone item (List.mem_cons_of_mem _ hitem)]
      exact hother (hnone (a, c) List.mem_cons_self)

/-- The moved contents are the rewritten texts of the cells that are left, where these end up. -/
theorem getElem?_movedContents (h : s.movedContents e = .ok contents) {b : Address} {text : String} :
    contents[b]? = some text ↔ ∃ (a : Address) (c : Cell), s.cells[a]? = some c ∧
      a.shift? e = some b ∧ Formula.shiftText e c.content = .ok text := by
  obtain ⟨hmoved, hkept⟩ := foldlM_moveContent (nodup_map_fst_toList _) h b
  have hplace : ∀ (a : Address) (c : Cell), s.cells[a]? = some c → a.shift? e = some b →
      ∃ text, Formula.shiftText e c.content = .ok text ∧ contents[b]? = some text := fun a c hc =>
    hmoved (a, c) (Std.ExtTreeMap.mem_toList_iff_getElem?_eq_some.mpr hc)
  constructor
  · intro htext
    by_contra hnone
    rw [hkept, Std.ExtTreeMap.getElem?_empty] at htext
    · contradiction
    · intro item hitem hb
      rw [Std.ExtTreeMap.mem_toList_iff_getElem?_eq_some] at hitem
      obtain ⟨text', hshift, htext'⟩ := hplace item.1 item.2 hitem hb
      rw [htext] at htext'
      cases htext'
      exact hnone ⟨item.1, item.2, hitem, hb, hshift⟩
  · rintro ⟨a, c, hc, ha, hshift⟩
    obtain ⟨text', hshift', htext'⟩ := hplace a c hc ha
    rw [hshift] at hshift'
    cases hshift'
    exact htext'

/-- There are moved contents if every cell that is left can be rewritten. -/
theorem exists_movedContents (h : ∀ (a : Address) (c : Cell), s.cells[a]? = some c →
    (a.shift? e).isSome → ∃ text, Formula.shiftText e c.content = .ok text) :
    ∃ contents, s.movedContents e = .ok contents := by
  unfold movedContents
  have hitems : ∀ item ∈ s.cells.toList, ∃ place, moveContent e item.1 item.2.content = .ok place := by
    intro item hitem
    unfold moveContent
    split
    · exact ⟨none, rfl⟩
    · rename_i b hb
      rw [Std.ExtTreeMap.mem_toList_iff_getElem?_eq_some] at hitem
      obtain ⟨text, htext⟩ := h _ _ hitem (by rw [hb]; rfl)
      rw [htext]
      exact ⟨_, rfl⟩
  generalize (∅ : AddressMap String) = start
  generalize s.cells.toList = items at hitems
  induction items generalizing start with
  | nil => exact ⟨start, rfl⟩
  | cons item items ih =>
    obtain ⟨a, c⟩ := item
    obtain ⟨place, hplace⟩ := hitems (a, c) List.mem_cons_self
    dsimp only at hplace
    rw [List.foldlM_cons]
    dsimp only
    rw [hplace]
    have hrest := fun start => ih start fun item hitem => hitems item (List.mem_cons_of_mem _ hitem)
    cases place with
    | none => exact hrest start
    | some place => exact hrest _

/-- A cell that is not deleted ends up inside the sheet. -/
theorem holds_of_shift? {s : Sheet} {e : LineEdit} {a b : Address} (hin : s.limits.Holds a)
    (hindex : 0 ≤ e.index) (hlast : 0 < e.count ∨ e.stop ≤ s.lineCount e.axis)
    (h : a.shift? e = some b) : (s.limits.edit e).Holds b := by
  obtain ⟨pos, hpos, rfl⟩ := Option.map_eq_some_iff.mp h
  unfold LineEdit.movePosition? at hpos
  unfold Limits.Holds at hin ⊢
  unfold LineEdit.stop at hlast hpos
  unfold Limits.edit
  cases haxis : e.axis with
  | row =>
    rw [haxis] at hlast hpos
    simp only [lineCount, Axis.position, Axis.withPosition, LineEdit.resize] at hlast hpos ⊢
    grind
  | col =>
    rw [haxis] at hlast hpos
    simp only [lineCount, Axis.position, Axis.withPosition, LineEdit.resize] at hlast hpos ⊢
    grind

theorem inside_movedContents (hs : s.Formed) (hindex : 0 ≤ e.index)
    (hlast : 0 < e.count ∨ e.stop ≤ s.lineCount e.axis) {contents : AddressMap String}
    (hcontents : s.movedContents e = .ok contents) : ∀ b ∈ contents, (s.limits.edit e).Holds b := by
  intro b hb
  obtain ⟨content, hcontent⟩ :=
    Option.isSome_iff_exists.mp (Std.ExtTreeMap.mem_iff_isSome_getElem?.mp hb)
  obtain ⟨a, c, hc, ha, -⟩ := (getElem?_movedContents hcontents).mp hcontent
  exact holds_of_shift? (hs.inside a _ (form?_of_getElem? hc)) hindex hlast ha

end Sheet
end Spreadsheet
