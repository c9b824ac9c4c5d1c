import Spreadsheet.Proofs.Address.Spelling
import Spreadsheet.Proofs.Sheet.Relocation

/-! Contents loaded again. The contents of a sheet that was loaded at once lead to the same sheet when they
are loaded under the texts of their cells. Of what was given before, blanks, contents that later ones
replaced and the order leave no trace. -/
namespace Spreadsheet.Sheet

variable {s : Sheet} {b b' : Batch} {a : Address} {content : String} {contents texts : AddressMap String}
  {items : List (Address × String)}

/-! ## Blanks -/

/-- The items whose contents are not blank. -/
def visible (items : List (Address × String)) : List (Address × String) :=
  items.filter fun item => !Text.isAllBlank item.2

theorem put_blank (hblank : Text.isAllBlank content) (hvacant : s.form? a = none) (hb : b.sheet = s) :
    b.put (a, content) = .ok b := by
  have hnone : b.sheet.cells[a]? = none := by
    rw [hb]
    exact Option.map_eq_none_iff.mp hvacant
  have hafter := afterPut_put b a content
  generalize b.put (a, content) = next at hafter ⊢
  cases hafter with
  | kept _ _ => rfl
  | emptied _ hoccupied =>
    rw [Std.ExtTreeMap.mem_iff_isSome_getElem?, hnone] at hoccupied
    contradiction
  | halted hcontent _ | staged hcontent _ => exact absurd hblank (by simp [hcontent])

theorem form?_eq_none_of_dump (h : ∀ item ∈ s.dump, item.1.Precedes a) : s.form? a = none := by
  rw [Option.eq_none_iff_forall_ne_some]
  rintro ⟨content, kind⟩ ha
  exact (h _ (mem_dump.mpr ⟨kind, ha⟩)).ne rfl

/-- In cells after those that are occupied blanks do nothing. -/
theorem putAll_visible
    (hsorted : (b.sheet.dump ++ items).Pairwise fun item later => item.1.Precedes later.1) :
    b.putAll (visible items) = b.putAll items := by
  induction items generalizing b with
  | nil => rfl
  | cons item items ih =>
    obtain ⟨a, content⟩ := item
    have hlast : ∀ item ∈ b.sheet.dump, item.1.Precedes a := fun item hitem =>
      (List.pairwise_append.mp hsorted).2.2 item hitem _ List.mem_cons_self
    unfold visible Batch.putAll at ih ⊢
    cases hblank : Text.isAllBlank content with
    | true =>
      rw [List.filter_cons_of_neg (by simp [hblank]), List.foldlM_cons,
        put_blank hblank (form?_eq_none_of_dump hlast) rfl]
      exact ih (hsorted.sublist (List.sublist_cons_self _ _ |>.append_left _))
    | false =>
      rw [List.filter_cons_of_pos (by simp [hblank]), List.foldlM_cons, List.foldlM_cons]
      cases hput : b.put (a, content) with
      | error broken => rfl
      | ok next =>
        refine ih ?_
        rw [sheet_of_put_visible hblank (.inl hput), dump_stage hlast, List.append_assoc]
        exact hsorted

theorem conclude_events {α : Type} (s : Sheet) (trigger : Option Address) (cells : AddressSet)
    (before after before' after' : List Event) (answer : α) :
    (s.conclude trigger cells before after answer).sheet =
        (s.conclude trigger cells before' after' answer).sheet ∧
      (s.conclude trigger cells before after answer).answer =
        (s.conclude trigger cells before' after' answer).answer := by
  rw [conclude_eq, conclude_eq]
  split
  · split <;> exact ⟨rfl, rfl⟩
  · exact ⟨rfl, rfl⟩

/-- Without the blanks the same comes of contents for an empty sheet. -/
theorem enterAll_visible (hempty : s.dump = []) (h : texts.toList = visible contents.toList) :
    (s.enterAll texts).sheet = (s.enterAll contents).sheet ∧
      (s.enterAll texts).answer = (s.enterAll contents).answer := by
  have hput : (Batch.start s).putAll texts.toList = (Batch.start s).putAll contents.toList := by
    rw [h]
    refine putAll_visible ?_
    change (s.dump ++ _).Pairwise _
    rw [hempty]
    exact pairwise_toList contents
  unfold enterAll
  rw [hput]
  split
  · exact ⟨rfl, rfl⟩
  · exact conclude_events ..

theorem dump_enterAll_visible (hempty : s.dump = []) (hs : s.Formed)
    (hin : ∀ item ∈ contents.toList, s.limits.Holds item.1) {found : List Diagnostic}
    (h : (s.enterAll contents).answer = .ok found) :
    (s.enterAll contents).sheet.dump = visible contents.toList := by
  have hafter := afterPuts_enterAll hin
  generalize s.enterAll contents = r at hafter h ⊢
  cases hafter with
  | halted _ _ _ => contradiction
  | concluded hput hstaged =>
    have hsorted := pairwise_toList contents
    have hstart : (Batch.start s).sheet.dump = [] := hempty
    rw [dump_conclude (hstaged.formed hs)]
    rw [← putAll_visible (by rwa [hstart])] at hput
    rw [dump_putAll _ _ hput, hstart, List.nil_append]
    · rw [hstart]
      exact hsorted.sublist List.filter_sublist
    · intro item hitem
      simpa using (List.mem_filter.mp hitem).2

/-! ## Cells by their texts -/

theorem locate_text (h : a.Spellable) : s.locate (.text a.text) = s.locate a.given := by
  have hnot : ¬(a.row < 0 ∨ a.col < 0) := by
    have hnatural := h.natural
    unfold Address.Natural at hnatural
    omega
  unfold locate Address.ofGiven? Address.given
  dsimp only
  rw [Address.ofText?_text h, if_neg hnot]

theorem spellable_of_locate {address : String} (h : s.locate (.text address) = .ok a) : a.Spellable := by
  unfold locate at h
  split at h
  · cases h
  · rename_i found hfound
    split at h <;> cases h
    exact Address.spellable_of_ofText? hfound

/-- Contents for cells that texts name, as they are loaded. -/
def spelled (given : List (String × String)) : List (Address.Given × Datum) :=
  given.map fun (address, content) => (.text address, .text content)

/-- The contents of a sheet under the texts of their cells. -/
def saved (s : Sheet) : List (String × String) := s.dump.map fun (a, content) => (a.text, content)

theorem placeText_text (h : a.Spellable) :
    s.placeText texts (.text a.text, content) = s.placeText texts (a.given, content) := by
  unfold placeText
  dsimp only
  rw [locate_text h]

theorem placeAll_text (h : ∀ item ∈ items, item.1.Spellable) :
    s.placeAll (items.map fun (a, content) => (.text a.text, content)) =
      s.placeAll (items.map fun (a, content) => (a.given, content)) := by
  unfold placeAll
  rw [List.foldlM_map, List.foldlM_map]
  generalize (∅ : AddressMap String) = start
  induction items generalizing start with
  | nil => simp only [List.foldlM_nil]
  | cons item items ih =>
    simp only [List.foldlM_cons, placeText_text (h item List.mem_cons_self)]
    exact bind_congr fun next => ih (fun item hmem => h item (List.mem_cons_of_mem _ hmem)) next

/-- Only text spells an address of cells that were given by texts. -/
theorem spellable_of_placeAll {given : List (String × String)}
    (h : s.placeAll (given.map fun (address, content) => (.text address, content)) = .ok texts) :
    ∀ a ∈ texts, a.Spellable := by
  unfold placeAll at h
  rw [List.foldlM_map] at h
  refine foldlM_invariant (p := fun texts : AddressMap String => ∀ a ∈ texts, a.Spellable) ?_
    (by simp) h
  intro found item next _ hfound hnext x hx
  obtain ⟨a, ha, rfl⟩ := map_eq_ok.mp hnext
  rw [Std.ExtTreeMap.mem_insert, Std.LawfulEqOrd.compare_eq_iff_eq] at hx
  rcases hx with rfl | hx
  · exact spellable_of_locate ha
  · exact hfound x hx

theorem nodup_dump (s : Sheet) : (s.dump.map Prod.fst).Nodup := by
  unfold dump
  rw [List.map_map]
  exact nodup_map_fst_toList s.cells

theorem load_saved_texts (h : ∀ item ∈ s.dump, item.1.Spellable) :
    (new s.limits).load (spelled s.saved) = s.reload := by
  have hload := load_texts (new s.limits) (s.dump.map fun (a, content) => (.text a.text, content))
  have hreload := load_texts (new s.limits) (s.dump.map fun (a, content) => (a.given, content))
  rw [List.map_map] at hload hreload
  rw [placeAll_text h] at hload
  unfold spelled saved reload
  rw [List.map_map]
  exact hload.trans hreload.symm

/-- A sheet loaded at once holds the contents that were given last for their cells and are not blank. -/
theorem load_spelled (limits : Limits) (given : List (String × String)) {found : List Diagnostic}
    (h : ((new limits).load (spelled given)).answer = .ok found) :
    ∃ contents, (new limits).placeAll (given.map fun (address, content) => (.text address, content)) =
        .ok contents ∧ (new limits).load (spelled given) = (new limits).enterAll contents ∧
      ((new limits).load (spelled given)).sheet.dump = visible contents.toList := by
  have hload := load_texts (new limits) (given.map fun (address, content) => (.text address, content))
  rw [List.map_map] at hload
  change (new limits).load (spelled given) = _ at hload
  cases hplace : (new limits).placeAll (given.map fun (address, content) => (.text address, content)) with
  | error fault =>
    rw [hload, hplace] at h
    contradiction
  | ok contents =>
    rw [hplace] at hload
    dsimp only at hload
    rw [hload] at h ⊢
    exact ⟨contents, rfl, rfl, dump_enterAll_visible rfl formed_of_empty (holds_of_placeAll hplace) h⟩

/-- What was given by texts and loaded into an empty sheet is loaded again from the contents of that
sheet. -/
theorem load_saved (limits : Limits) (given : List (String × String)) {found : List Diagnostic}
    (h : ((new limits).load (spelled given)).answer = .ok found) :
    let loaded := (new limits).load (spelled given)
    let again := (new limits).load (spelled loaded.sheet.saved)
    (∀ item ∈ loaded.sheet.dump, item.1.Spellable) ∧ again.sheet = loaded.sheet ∧
      again.answer = loaded.answer := by
  intro loaded again
  obtain ⟨contents, hplace, hload, hdump⟩ := load_spelled limits given h
  have hformed : loaded.sheet.Formed ∧ loaded.sheet.limits = limits := formed_of_empty.load _
  have hspellable : ∀ item ∈ loaded.sheet.dump, item.1.Spellable := by
    intro item hitem
    rw [hdump] at hitem
    exact spellable_of_placeAll hplace item.1 (mem_of_mem_toList (List.mem_filter.mp hitem).1)
  have htexts : (loaded.sheet.cells.map fun _ c => c.content).toList = visible contents.toList := by
    rw [Std.ExtTreeMap.toList_map, ← hdump]
    rfl
  have hagain : again = (new limits).enterAll (loaded.sheet.cells.map fun _ c => c.content) := by
    have hreload := load_saved_texts hspellable
    rwa [reload_eq hformed.1, hformed.2] at hreload
  have hsame := enterAll_visible (s := new limits) rfl htexts
  rw [← hagain, ← hload] at hsame
  exact ⟨hspellable, hsame⟩

end Spreadsheet.Sheet
