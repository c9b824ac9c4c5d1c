import Spreadsheet.Proofs.Sheet.Structure

/-! Contents put into cells one after the other, before anything is calculated. What happens to a sheet
depends on its contents, kinds and edges, not on its values. -/
namespace Spreadsheet.Sheet

/-- A sheet after contents were put into some of the touched cells and others of them were emptied. All
refusals can be told of. -/
inductive Staged (s : Sheet) : AddressSet → Sheet → Prop where
  | start (touched : AddressSet) : Staged s touched s
  | stage {touched : AddressSet} {t : Sheet} (a : Address) (content : String) :
    Staged s touched t → s.limits.Holds a → Text.isAllBlank content = false →
      (t.stage a content).2.all (Rejection.isTellable a) →
      Staged s (touched.insert a) (t.stage a content).1
  | vacate {touched : AddressSet} {t : Sheet} (a : Address) :
    Staged s touched t → Staged s (touched.insert a) (t.vacate a)

/-- A sheet after a formula was refused and a number is too long to tell of it. -/
def Halted (s t : Sheet) : Prop :=
  ∃ a content, s.limits.Holds a ∧ Text.isAllBlank content = false ∧
    (s.stage a content).2.all (Rejection.isTellable a) = false ∧ t = (s.stage a content).1

theorem limits_stage (s : Sheet) (a : Address) (content : String) :
    (s.stage a content).1.limits = s.limits := by
  obtain ⟨kind, -, -, ⟨targets, -, -, -, hstage⟩ | ⟨-, -, hstage⟩⟩ := stage_cases s a content
  · rw [hstage]
  · rw [hstage]

theorem settings_stage (s : Sheet) (a : Address) (content : String) :
    (s.stage a content).1.settings = s.settings := by
  obtain ⟨kind, -, -, ⟨targets, -, -, -, hstage⟩ | ⟨-, -, hstage⟩⟩ := stage_cases s a content
  · rw [hstage]
  · rw [hstage]

theorem Halted.limits {s t : Sheet} (h : Halted s t) : t.limits = s.limits := by
  obtain ⟨a, content, -, -, -, rfl⟩ := h
  exact limits_stage s a content

/-- What makes it impossible to tell of a refusal shows in the sheet. -/
theorem unwritable_of_stage {s : Sheet} {a : Address} {content : String}
    (h : (s.stage a content).2.all (Rejection.isTellable a) = false) :
    a.isWritable = false ∨
      (s.stage a content).1.Oversized a ∧ Number.isWritable s.limits.rangeCells = false := by
  obtain ⟨kind, -, hreason, hform⟩ := form?_stage s a content
  obtain ⟨reason, rfl, hlong⟩ := (all_isTellable_eq_false hreason).mp h
  refine (Limits.tells_eq_false.mp hlong).imp_right fun ⟨hrange, hlimit⟩ => ⟨?_, hlimit⟩
  exact oversized_iff.mpr ⟨content, by rw [hform, if_pos rfl, hrange]⟩

theorem Halted.exists_unwritable {s t : Sheet} (h : Halted s t) : ∃ a, s.limits.Holds a ∧
    (a.isWritable = false ∨ t.Oversized a ∧ Number.isWritable s.limits.rangeCells = false) := by
  obtain ⟨a, content, hin, -, hsilent, rfl⟩ := h
  exact ⟨a, hin, unwritable_of_stage hsilent⟩

/-- Staging leaves the other cells and their edges alone. -/
theorem stage_other (s : Sheet) {a x : Address} (content : String) (hx : x ≠ a) :
    (s.stage a content).1.cells[x]? = s.cells[x]? ∧
      (s.stage a content).1.graph.readsOf x = s.graph.readsOf x := by
  have hne : compare a x ≠ .eq := by
    rw [ne_eq, Std.LawfulEqOrd.compare_eq_iff_eq]
    exact Ne.symm hx
  obtain ⟨kind, -, -, ⟨targets, -, -, -, hstage⟩ | ⟨-, -, hstage⟩⟩ := stage_cases s a content
  · rw [hstage]
    dsimp only
    rw [Std.ExtTreeMap.getElem?_insert, if_neg hne, Graph.readsOf_setReads, if_neg hx]
    exact ⟨rfl, rfl⟩
  · rw [hstage]
    dsimp only
    rw [Std.ExtTreeMap.getElem?_insert, if_neg hne]
    exact ⟨rfl, rfl⟩

theorem vacate_other (s : Sheet) {a x : Address} (hx : x ≠ a) :
    (s.vacate a).cells[x]? = s.cells[x]? ∧
      (s.vacate a).graph.readsOf x = s.graph.readsOf x := by
  unfold vacate
  dsimp only
  rw [Std.ExtTreeMap.getElem?_erase, if_neg, Graph.readsOf_clearReads, if_neg hx]
  · exact ⟨rfl, rfl⟩
  · rw [Std.LawfulEqOrd.compare_eq_iff_eq]
    exact Ne.symm hx

namespace Staged

variable {s t : Sheet} {touched : AddressSet}

theorem limits (h : Staged s touched t) : t.limits = s.limits := by
  induction h with
  | start => rfl
  | stage a content _ _ _ _ ih => rw [limits_stage, ih]
  | vacate a _ ih => exact ih

theorem formed (h : Staged s touched t) (hs : s.Formed) : t.Formed := by
  induction h with
  | start => exact hs
  | stage a content h hin hcontent _ ih => exact ih.stage (h.limits ▸ hin) hcontent
  | vacate a _ ih => exact ih.vacate a

theorem other (h : Staged s touched t) {x : Address} (hx : x ∉ touched) :
    t.cells[x]? = s.cells[x]? ∧ t.graph.readsOf x = s.graph.readsOf x := by
  induction h with
  | start => exact ⟨rfl, rfl⟩
  | stage a content _ _ _ _ ih =>
    rw [Std.ExtTreeSet.mem_insert, Std.LawfulEqOrd.compare_eq_iff_eq, not_or] at hx
    obtain ⟨hcell, hreads⟩ := stage_other _ content (Ne.symm hx.1)
    rw [hcell, hreads]
    exact ih hx.2
  | vacate a _ ih =>
    rw [Std.ExtTreeSet.mem_insert, Std.LawfulEqOrd.compare_eq_iff_eq, not_or] at hx
    obtain ⟨hcell, hreads⟩ := vacate_other _ (Ne.symm hx.1)
    rw [hcell, hreads]
    exact ih hx.2

end Staged

/-! ## Batches -/

/-- How a batch goes on with a cell: blank content empties the cell if it is occupied, other content is
put in, and the batch stops at a refusal that cannot be told of. -/
inductive AfterPut (b : Batch) (a : Address) (content : String) : Except Batch Batch → Prop where
  | emptied : Text.isAllBlank content → a ∈ b.sheet.cells →
    AfterPut b a content
      (.ok { b with sheet := b.sheet.vacate a, touched := b.touched.insert a })
  | kept : Text.isAllBlank content → a ∉ b.sheet.cells → AfterPut b a content (.ok b)
  | halted : Text.isAllBlank content = false →
    (b.sheet.stage a content).2.all (Rejection.isTellable a) = false →
      AfterPut b a content (.error { b with sheet := (b.sheet.stage a content).1 })
  | staged : Text.isAllBlank content = false →
    (b.sheet.stage a content).2.all (Rejection.isTellable a) →
      AfterPut b a content (.ok ⟨(b.sheet.stage a content).1, b.touched.insert a,
        ((b.sheet.stage a content).2.map (Diagnostic.mk a)).toList ++ b.diagnostics⟩)

theorem afterPut_put (b : Batch) (a : Address) (content : String) :
    AfterPut b a content (b.put (a, content)) := by
  unfold Batch.put
  dsimp only
  split
  · rename_i hblank
    split
    · rename_i hoccupied
      exact .emptied hblank (Std.ExtTreeMap.contains_iff_mem.mp hoccupied)
    · rename_i hvacant
      exact .kept hblank (mt Std.ExtTreeMap.contains_iff_mem.mpr hvacant)
  · rename_i hcontent
    rw [Bool.not_eq_true] at hcontent
    split
    · rename_i hsilent
      rw [Bool.not_eq_true'] at hsilent
      exact .halted hcontent hsilent
    · rename_i htold
      rw [Bool.not_eq_true', Bool.not_eq_false] at htold
      exact .staged hcontent htold

theorem Staged.put {s : Sheet} {b : Batch} (h : Staged s b.touched b.sheet)
    {item : Address × String} (hin : s.limits.Holds item.1) :
    (∃ b', b.put item = .ok b' ∧ Staged s b'.touched b'.sheet) ∨
      ∃ b', b.put item = .error b' ∧ Halted b.sheet b'.sheet := by
  obtain ⟨a, content⟩ := item
  have hafter := afterPut_put b a content
  generalize b.put (a, content) = next at hafter ⊢
  cases hafter with
  | emptied _ _ => exact .inl ⟨_, rfl, h.vacate _⟩
  | kept _ _ => exact .inl ⟨_, rfl, h⟩
  | halted hcontent hsilent =>
    exact .inr ⟨_, rfl, _, _, h.limits ▸ hin, hcontent, hsilent, rfl⟩
  | staged hcontent htold => exact .inl ⟨_, rfl, h.stage _ _ hin hcontent htold⟩

theorem staged_of_put {s : Sheet} {b : Batch} {item : Address × String} (hin : s.limits.Holds item.1)
    (h : (Batch.start s).put item = .ok b) : Staged s b.touched b.sheet := by
  rcases (Staged.start (s := s) ∅).put (b := .start s) hin with ⟨b', hb', hstaged⟩ | ⟨b', hb', -⟩
  · rw [h] at hb'
    cases hb'
    exact hstaged
  · rw [h] at hb'
    cases hb'

theorem halted_of_put {s : Sheet} {b : Batch} {item : Address × String} (hin : s.limits.Holds item.1)
    (h : (Batch.start s).put item = .error b) : Halted s b.sheet := by
  rcases (Staged.start (s := s) ∅).put (b := .start s) hin with ⟨b', hb', -⟩ | ⟨b', hb', hhalted⟩
  · rw [h] at hb'
    cases hb'
  · rw [h] at hb'
    cases hb'
    exact hhalted

theorem putAll_cons {b b' : Batch} {item : Address × String} {items : List (Address × String)} :
    b.putAll (item :: items) = .ok b' ↔ ∃ next, b.put item = .ok next ∧ next.putAll items = .ok b' := by
  unfold Batch.putAll
  rw [List.foldlM_cons]
  exact bind_eq_ok

theorem Staged.putAll {s : Sheet} {b : Batch} (h : Staged s b.touched b.sheet)
    {items : List (Address × String)} (hin : ∀ item ∈ items, s.limits.Holds item.1) :
    (∃ b', b.putAll items = .ok b' ∧ Staged s b'.touched b'.sheet) ∨
      ∃ b', b.putAll items = .error b' ∧
        ∃ touched t, Staged s touched t ∧ Halted t b'.sheet := by
  unfold Batch.putAll
  induction items generalizing b with
  | nil => exact .inl ⟨b, rfl, h⟩
  | cons item items ih =>
    rw [List.foldlM_cons]
    rcases h.put (hin item List.mem_cons_self) with ⟨b', hput, hb'⟩ | ⟨b', hput, hhalted⟩
    · rw [hput]
      exact ih hb' fun item' hmem => hin item' (List.mem_cons_of_mem item hmem)
    · rw [hput]
      exact .inr ⟨b', rfl, _, _, h, hhalted⟩

/-- A batch stops at a content whose refusal cannot be told of. -/
theorem exists_rejected_of_put {b b' : Batch} {item : Address × String} (h : b.put item = .error b') :
    ∃ reason, (Cell.Kind.rejected reason).Fits b.sheet.limits item.2 ∧
      b.sheet.limits.tells item.1 reason = false := by
  obtain ⟨a, content⟩ := item
  have hafter := afterPut_put b a content
  rw [h] at hafter
  cases hafter with
  | halted _ hsilent =>
    obtain ⟨kind, hfits, hreason, -⟩ := form?_stage b.sheet a content
    obtain ⟨reason, rfl, hlong⟩ := (all_isTellable_eq_false hreason).mp hsilent
    exact ⟨reason, hfits, hlong⟩

theorem exists_rejected_of_putAll {s : Sheet} {b : Batch} {items : List (Address × String)}
    (hin : ∀ item ∈ items, s.limits.Holds item.1) (h : (Batch.start s).putAll items = .error b) :
    ∃ item ∈ items, ∃ reason, (Cell.Kind.rejected reason).Fits s.limits item.2 ∧
      s.limits.tells item.1 reason = false := by
  obtain ⟨before, item, after, c, rfl, hbefore, hput⟩ := foldlM_eq_error.mp h
  have hin' : ∀ item ∈ before, s.limits.Holds item.1 := fun item hitem =>
    hin item (List.mem_append_left _ hitem)
  rcases (Staged.start (s := s) ∅).putAll (b := .start s) hin' with ⟨b', hb', hstaged⟩ | ⟨b', hb', -⟩
  · cases hbefore.symm.trans hb'
    obtain ⟨reason, hfits, hlong⟩ := exists_rejected_of_put hput
    rw [hstaged.limits] at hfits hlong
    exact ⟨item, by simp, reason, hfits, hlong⟩
  · cases hbefore.symm.trans hb'

/-- How it goes on after contents were put into many cells: the edit stops at a refusal that cannot be
told of, and ends with a pass otherwise. -/
inductive AfterPuts (s : Sheet) (contents : AddressMap String) :
    Edited (Except Fault (List Diagnostic)) → Prop where
  | halted {b : Batch} {touched : AddressSet} {t : Sheet} :
    (Batch.start s).putAll contents.toList = .error b → Staged s touched t → Halted t b.sheet →
      AfterPuts s contents ⟨b.sheet, b.events, .error .halted⟩
  | concluded {b : Batch} : (Batch.start s).putAll contents.toList = .ok b →
    Staged s b.touched b.sheet →
      AfterPuts s contents (b.sheet.conclude none (b.sheet.affected b.touched) b.events
        [.loaded contents.size b.found.length] b.found)

theorem afterPuts_enterAll {s : Sheet} {contents : AddressMap String}
    (hin : ∀ item ∈ contents.toList, s.limits.Holds item.1) :
    s.AfterPuts contents (s.enterAll contents) := by
  unfold enterAll
  rcases (Staged.start (s := s) ∅).putAll (b := .start s) hin with
    ⟨b, hput, hstaged⟩ | ⟨b, hput, _, _, hstaged, hhalted⟩
  · rw [hput]
    exact .concluded hput hstaged
  · rw [hput]
    exact .halted hput hstaged hhalted

/-! ## Texts for many cells -/

/-- Notes a text for a cell; of two texts for one cell the later one counts. -/
def placeText (s : Sheet) (texts : AddressMap String) (item : Address.Given × String) :
    Except Fault (AddressMap String) :=
  (s.locate item.1).map fun a => texts.insert a item.2

/-- The cells for which texts are given. -/
def placeAll (s : Sheet) (items : List (Address.Given × String)) :
    Except Fault (AddressMap String) := items.foldlM s.placeText ∅

theorem mem_of_mem_toList {α : Type} {m : AddressMap α} {item : Address × α}
    (h : item ∈ m.toList) : item.1 ∈ m := by
  rw [Std.ExtTreeMap.mem_toList_iff_getElem?_eq_some] at h
  rw [Std.ExtTreeMap.mem_iff_isSome_getElem?, h]
  rfl

theorem nodup_map_fst_toList {α : Type} (m : AddressMap α) : (m.toList.map Prod.fst).Nodup := by
  rw [List.Nodup, List.pairwise_map]
  apply Std.ExtTreeMap.distinct_keys_toList.imp
  intro p q hpq heq
  exact hpq (by rw [heq, Std.compare_self])

theorem holds_of_placeAll {s : Sheet} {items : List (Address.Given × String)}
    {texts : AddressMap String} (h : s.placeAll items = .ok texts) :
    ∀ item ∈ texts.toList, s.limits.Holds item.1 := by
  have hall : ∀ a ∈ texts, s.limits.Holds a := by
    refine foldlM_invariant (p := fun texts => ∀ a ∈ texts, s.limits.Holds a) ?_ (by simp) h
    intro found item next _ hfound hnext x hx
    obtain ⟨a, ha, rfl⟩ := map_eq_ok.mp hnext
    rw [Std.ExtTreeMap.mem_insert, Std.LawfulEqOrd.compare_eq_iff_eq] at hx
    rcases hx with rfl | hx
    · exact holds_of_locate ha
    · exact hfound x hx
  exact fun item hitem => hall item.1 (mem_of_mem_toList hitem)

private theorem foldlM_placeText {s : Sheet} {items : List (Address × String)}
    (hin : ∀ item ∈ items, s.limits.Holds item.1) (start : AddressMap String) :
    (items.map fun (a, content) => (a.given, content)).foldlM s.placeText start =
      .ok (start.insertMany items) := by
  induction items generalizing start with
  | nil =>
    rw [Std.ExtTreeMap.insertMany_nil]
    rfl
  | cons item items ih =>
    obtain ⟨a, content⟩ := item
    rw [List.map_cons, List.foldlM_cons, Std.ExtTreeMap.insertMany_cons]
    unfold placeText
    dsimp only
    rw [locate_given (hin _ List.mem_cons_self)]
    exact ih (fun item hmem => hin item (List.mem_cons_of_mem _ hmem)) _

theorem placeAll_given {s : Sheet} {items : List (Address × String)}
    (hin : ∀ item ∈ items, s.limits.Holds item.1) :
    s.placeAll (items.map fun (a, content) => (a.given, content)) =
      .ok ((∅ : AddressMap String).insertMany items) := foldlM_placeText hin ∅

/-- Texts as contents to be loaded. -/
def asData (texts : AddressMap String) : AddressMap Datum := texts.map fun _ content => .text content

private theorem asData_insert (texts : AddressMap String) (a : Address) (content : String) :
    asData (texts.insert a content) = (asData texts).insert a (.text content) := by
  unfold asData
  apply Std.ExtTreeMap.ext_getElem?
  intro x
  rw [Std.ExtTreeMap.getElem?_map, Std.ExtTreeMap.getElem?_insert, Std.ExtTreeMap.getElem?_insert,
    Std.ExtTreeMap.getElem?_map]
  split <;> rfl

theorem locateAll_texts (s : Sheet) (items : List (Address.Given × String)) :
    s.locateAll (items.map fun (place, content) => (place, .text content)) =
      (s.placeAll items).map asData := by
  unfold locateAll placeAll
  have hstart : (∅ : AddressMap Datum) = asData ∅ := by
    apply Std.ExtTreeMap.ext_getElem?
    intro x
    unfold asData
    rw [Std.ExtTreeMap.getElem?_map]
    simp
  rw [hstart]
  generalize (∅ : AddressMap String) = start
  clear hstart
  induction items generalizing start with
  | nil => rfl
  | cons item items ih =>
    obtain ⟨place, content⟩ := item
    rw [List.map_cons, List.foldlM_cons, List.foldlM_cons, placeText]
    dsimp only
    cases s.locate place with
    | error fault => rfl
    | ok a =>
      have hrest := ih (start.insert a content)
      rw [asData_insert] at hrest
      exact hrest

/-- Texts that all have a place are entered in the order of their cells. -/
theorem load_texts (s : Sheet) (items : List (Address.Given × String)) :
    s.load (items.map fun (place, content) => (place, .text content)) =
      match s.placeAll items with
      | .error fault => s.refuse fault
      | .ok texts => s.enterAll texts := by
  unfold load
  rw [locateAll_texts]
  cases s.placeAll items with
  | error fault => rfl
  | ok texts =>
    have hloadable : unloadable? (asData texts).toList = none := by
      unfold unloadable? asData
      rw [Std.ExtTreeMap.toList_map, Option.map_eq_none_iff, List.find?_eq_none]
      intro item hitem
      obtain ⟨pair, -, rfl⟩ := List.mem_map.mp hitem
      simp [textContent?]
    have htexts : (asData texts).filterMap (fun a content =>
        (textContent? (a, content)).map Prod.snd) = texts := by
      unfold asData
      apply Std.ExtTreeMap.ext_getElem?
      intro x
      rw [Std.ExtTreeMap.getElem?_filterMap', Std.ExtTreeMap.getElem?_map]
      cases texts[x]? <;> rfl
    dsimp only [Except.map]
    rw [hloadable, htexts]

/-! ## Sheets that differ in values only -/

theorem Alike.interpret {s t : Sheet} (h : Alike s t) (a : Address) (content : String) :
    s.interpret a content = t.interpret a content := by
  unfold Sheet.interpret
  rw [h.limits, h.graph, h.bounds]

private theorem Alike.insert {s t : Sheet} (h : Alike s t) (a : Address) (c : Cell) (g : Graph) :
    Alike { s with cells := s.cells.insert a c, graph := g }
      { t with cells := t.cells.insert a c, graph := g } where
  limits := h.limits
  graph := rfl
  form? x := by
    have hs := form?_insert (s := s) (a := a)
      (t := { s with cells := s.cells.insert a c, graph := g }) rfl x
    have ht := form?_insert (s := t) (a := a)
      (t := { t with cells := t.cells.insert a c, graph := g }) rfl x
    rw [hs, ht, h.form?]

theorem Alike.stage {s t : Sheet} (h : Alike s t) (a : Address) (content : String) :
    Alike (s.stage a content).1 (t.stage a content).1 ∧
      (s.stage a content).2 = (t.stage a content).2 := by
  unfold Sheet.stage
  rw [h.interpret, h.graph]
  split
  · exact ⟨h.insert a _ _, rfl⟩
  · exact ⟨h.insert a _ _, rfl⟩
  · exact ⟨h.insert a _ _, rfl⟩

theorem Alike.vacate {s t : Sheet} (h : Alike s t) (a : Address) :
    Alike (s.vacate a) (t.vacate a) where
  limits := h.limits
  graph := by
    unfold Sheet.vacate
    rw [h.graph]
  form? x := by rw [form?_vacate, form?_vacate, h.form?]

/-- A batch goes on as one that starts from a sheet that differs from its own in values only. -/
theorem Alike.put {b : Batch} {t : Sheet} (h : Alike b.sheet t) (item : Address × String) :
    (∃ b' c, b.put item = .ok b' ∧ (Batch.start t).put item = .ok c ∧ Alike b'.sheet c.sheet ∧
        b'.touched = b.touched ∪ c.touched ∧ b'.diagnostics = c.diagnostics ++ b.diagnostics) ∨
      ∃ b' c, b.put item = .error b' ∧ (Batch.start t).put item = .error c := by
  obtain ⟨a, content⟩ := item
  have hunion : b.touched.insert a = b.touched ∪ (∅ : AddressSet).insert a := by
    apply Std.ExtTreeSet.ext_mem
    intro x
    simp only [Std.ExtTreeSet.mem_union_iff, Std.ExtTreeSet.mem_insert]
    grind
  obtain ⟨hstaged, hrejection⟩ := h.stage a content
  unfold Batch.put Batch.start
  dsimp only
  split
  · by_cases hoccupied : a ∈ t.cells
    · refine .inl ⟨_, _, if_pos ?_, if_pos ?_, h.vacate a, hunion, rfl⟩
      · rwa [Std.ExtTreeMap.contains_iff_mem, h.mem_cells]
      · rwa [Std.ExtTreeMap.contains_iff_mem]
    · refine .inl ⟨b, _, if_neg ?_, if_neg ?_, h, ?_, rfl⟩
      · rwa [Std.ExtTreeMap.contains_iff_mem, h.mem_cells]
      · rwa [Std.ExtTreeMap.contains_iff_mem]
      · apply Std.ExtTreeSet.ext_mem
        simp
  · rw [hrejection]
    split
    · exact .inr ⟨_, _, rfl, rfl⟩
    · refine .inl ⟨_, _, rfl, rfl, hstaged, hunion, ?_⟩
      rw [List.append_nil]

end Spreadsheet.Sheet
