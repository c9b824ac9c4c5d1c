import Spreadsheet.Proofs.Sheet.Unfailing

/-! Edits of lines lose no cell. All that are not deleted are entered again in their order, at different
places inside the new bounds, and with visible contents. Only a formula that is refused where it cannot
be told of stops that; the cells after it are lost. -/
namespace Spreadsheet

/-- What an edit of lines makes of cells and their contents. Those in deleted lines are left out. -/
inductive Relocated (e : LineEdit) :
    List (Address × String) → List (Address × String) → Prop where
  | nil : Relocated e [] []
  | deleted {a : Address} {content : String} {items moved : List (Address × String)} :
    a.shift? e = none → Relocated e items moved → Relocated e ((a, content) :: items) moved
  | kept {a b : Address} {content text : String} {items moved : List (Address × String)} :
    a.shift? e = some b → Formula.shiftText e content = .ok text → Relocated e items moved →
      Relocated e ((a, content) :: items) ((b, text) :: moved)

namespace Relocated

variable {e : LineEdit} {items moved : List (Address × String)} {b : Address} {text : String}

theorem mem_iff (h : Relocated e items moved) : (b, text) ∈ moved ↔ ∃ a content,
    (a, content) ∈ items ∧ a.shift? e = some b ∧ Formula.shiftText e content = .ok text := by
  induction h with
  | nil => simp
  | @deleted a content _ _ hdeleted _ ih =>
    rw [ih]
    constructor
    · rintro ⟨x, old, hmem, hmoved⟩
      exact ⟨x, old, List.mem_cons_of_mem _ hmem, hmoved⟩
    · rintro ⟨x, old, hmem, hx, htext⟩
      rcases List.mem_cons.mp hmem with heq | hmem
      · cases heq
        rw [hdeleted] at hx
        contradiction
      · exact ⟨x, old, hmem, hx, htext⟩
  | @kept a b' content text' _ _ hb' htext' _ ih =>
    rw [List.mem_cons, ih]
    constructor
    · rintro (heq | ⟨x, old, hmem, hmoved⟩)
      · cases heq
        exact ⟨a, content, List.mem_cons_self, hb', htext'⟩
      · exact ⟨x, old, List.mem_cons_of_mem _ hmem, hmoved⟩
    · rintro ⟨x, old, hmem, hx, htext⟩
      rcases List.mem_cons.mp hmem with heq | hmem
      · cases heq
        rw [hb'] at hx
        rw [htext'] at htext
        cases hx
        cases htext
        exact .inl rfl
      · exact .inr ⟨x, old, hmem, hx, htext⟩

/-- Cells keep their order. -/
theorem pairwise (h : Relocated e items moved)
    (hitems : items.Pairwise fun item later => item.1.Precedes later.1) :
    moved.Pairwise fun item later => item.1.Precedes later.1 := by
  induction h with
  | nil => exact hitems
  | deleted _ _ ih => exact ih hitems.tail
  | kept hb _ hrest ih =>
    rw [List.pairwise_cons] at hitems ⊢
    refine ⟨fun later hlater => ?_, ih hitems.2⟩
    obtain ⟨x, old, hmem, hx, -⟩ := hrest.mem_iff.mp hlater
    exact (Address.shift?_precedes_iff hb hx).mpr (hitems.1 _ hmem)

theorem exists_of_forall (h : ∀ item ∈ items, (item.1.shift? e).isSome →
    ∃ text, Formula.shiftText e item.2 = .ok text) : ∃ moved, Relocated e items moved := by
  induction items with
  | nil => exact ⟨[], .nil⟩
  | cons item items ih =>
    obtain ⟨a, content⟩ := item
    obtain ⟨moved, hmoved⟩ := ih fun item hitem => h item (List.mem_cons_of_mem _ hitem)
    cases ha : a.shift? e with
    | none => exact ⟨moved, .deleted ha hmoved⟩
    | some b =>
      obtain ⟨text, htext⟩ := h (a, content) List.mem_cons_self (by rw [ha]; rfl)
      exact ⟨(b, text) :: moved, .kept ha htext hmoved⟩

/-- What is left and where is determined by the edit. -/
theorem unique {moved' : List (Address × String)} (h : Relocated e items moved)
    (h' : Relocated e items moved') : moved = moved' := by
  induction h generalizing moved' with
  | nil =>
    cases h'
    rfl
  | deleted hdeleted _ ih =>
    cases h' with
    | deleted _ hrest => exact ih hrest
    | kept hb _ _ => cases hdeleted.symm.trans hb
  | kept hb htext _ ih =>
    cases h' with
    | deleted hdeleted _ => cases hdeleted.symm.trans hb
    | kept hb' htext' hrest =>
      cases hb.symm.trans hb'
      cases htext.symm.trans htext'
      rw [ih hrest]

end Relocated

namespace Sheet

variable {s t : Sheet} {a : Address} {content : String} {b b' : Batch} {e : LineEdit}
  {items moved : List (Address × String)} {contents : AddressMap String}

/-! ## Contents in the order of their cells -/

theorem pairwise_toList {α : Type} (m : AddressMap α) :
    m.toList.Pairwise fun item later => item.1.Precedes later.1 :=
  Std.ExtTreeMap.ordered_keys_toList.imp fun h => Address.compare_eq_lt.mp h

theorem pairwise_dump (s : Sheet) :
    s.dump.Pairwise fun item later => item.1.Precedes later.1 := by
  unfold dump
  rw [List.pairwise_map]
  exact pairwise_toList s.cells

/-- Lists in the order of their cells are the same if their items are. -/
theorem eq_of_pairwise (hitems : items.Pairwise fun item later => item.1.Precedes later.1)
    (hmoved : moved.Pairwise fun item later => item.1.Precedes later.1)
    (h : ∀ item, item ∈ items ↔ item ∈ moved) : items = moved := by
  have hirrefl : Std.Irrefl fun item later : Address × String => item.1.Precedes later.1 :=
    ⟨fun item hself => hself.ne rfl⟩
  have hasymm : Std.Asymm fun item later : Address × String => item.1.Precedes later.1 :=
    ⟨fun item later => by unfold Address.Precedes; omega⟩
  exact hitems.eq_of_mem_iff hmoved h

theorem Alike.dump (h : Alike s t) : s.dump = t.dump :=
  eq_of_pairwise (pairwise_dump s) (pairwise_dump t) fun (a, content) => by
    rw [mem_dump, mem_dump, h.form?]

/-- A content for a cell after all the others comes last. -/
theorem dump_stage (hlast : ∀ item ∈ s.dump, item.1.Precedes a) :
    (s.stage a content).1.dump = s.dump ++ [(a, content)] := by
  obtain ⟨kind, -, -, hform⟩ := form?_stage s a content
  have hvacant : s.form? a = none := by
    rw [Option.eq_none_iff_forall_ne_some]
    rintro ⟨text, kind⟩ ha
    exact (hlast _ (mem_dump.mpr ⟨kind, ha⟩)).ne rfl
  refine eq_of_pairwise (pairwise_dump _) ?_ ?_
  · rw [List.pairwise_append]
    exact ⟨pairwise_dump s, List.pairwise_singleton _ _, by simpa using hlast⟩
  · rintro ⟨x, text⟩
    rw [mem_dump, List.mem_append, mem_dump, List.mem_singleton, Prod.mk.injEq]
    simp only [hform]
    by_cases hx : x = a
    · subst hx
      simp [hvacant, eq_comm]
    · simp [hx]

theorem sheet_of_put_visible (hcontent : Text.isAllBlank content = false)
    (h : b.put (a, content) = .ok b' ∨ b.put (a, content) = .error b') :
    b'.sheet = (b.sheet.stage a content).1 := by
  have hafter := afterPut_put b a content
  rcases h with h | h <;> rw [h] at hafter
  · cases hafter with
    | emptied hblank _ | kept hblank _ => exact absurd hblank (by simp [hcontent])
    | staged _ _ => rfl
  · cases hafter with
    | halted _ _ => rfl

/-- Visible contents put in one after the other, in cells after those that are occupied. -/
theorem dump_putAll (hsorted : (b.sheet.dump ++ items).Pairwise fun item later => item.1.Precedes later.1)
    (hvisible : ∀ item ∈ items, Text.isAllBlank item.2 = false) (h : b.putAll items = .ok b') :
    b'.sheet.dump = b.sheet.dump ++ items := by
  induction items generalizing b with
  | nil =>
    cases h
    rw [List.append_nil]
  | cons item items ih =>
    obtain ⟨a, content⟩ := item
    obtain ⟨next, hnext, hrest⟩ := putAll_cons.mp h
    have hdump : next.sheet.dump = b.sheet.dump ++ [(a, content)] := by
      rw [sheet_of_put_visible (hvisible _ List.mem_cons_self) (.inl hnext)]
      exact dump_stage fun item hitem => (List.pairwise_append.mp hsorted).2.2 item hitem _ List.mem_cons_self
    rw [ih (by rwa [hdump, List.append_assoc]) (fun item hitem => hvisible item (List.mem_cons_of_mem _ hitem))
      hrest, hdump, List.append_assoc]
    rfl

theorem dump_conclude {α : Type} (hs : s.Formed) (trigger : Option Address) (cells : AddressSet)
    (before after : List Event) (answer : α) :
    (s.conclude trigger cells before after answer).sheet.dump = s.dump := by
  rw [conclude_eq]
  split
  · rename_i u hpass
    have hlike := (recalculate_eq_ok hs hpass).1
    split
    · exact hlike.dump.symm
    · exact hlike.dump.symm
  · rename_i broken hpass
    exact (recalculate_eq_error hpass).1.dump.symm

/-- Visible contents entered into an empty sheet are all there, unless the batch stops: then those are
there up to the formula that was refused. -/
theorem dump_enterAll (hempty : s.dump = []) (hs : s.Formed)
    (hin : ∀ item ∈ contents.toList, s.limits.Holds item.1)
    (hvisible : ∀ item ∈ contents.toList, Text.isAllBlank item.2 = false) :
    ((s.enterAll contents).answer = .error .halted ↔ s.Stops contents.toList) ∧
      ((s.enterAll contents).answer ≠ .error .halted → (s.enterAll contents).sheet.dump = contents.toList) ∧
      ((s.enterAll contents).answer = .error .halted → ∃ before a content after,
        contents.toList = before ++ (a, content) :: after ∧
          (s.enterAll contents).sheet.dump = before ++ [(a, content)] ∧
          (a.isWritable = false ∨ (s.enterAll contents).sheet.Oversized a ∧
            Number.isWritable s.limits.rangeCells = false)) := by
  have hsorted := pairwise_toList contents
  have hdump : ∀ {items : List (Address × String)} {b : Batch}, (Batch.start s).putAll items = .ok b →
      items.Pairwise (fun item later => item.1.Precedes later.1) →
        (∀ item ∈ items, Text.isAllBlank item.2 = false) → b.sheet.dump = items := by
    intro items b hput hitems hseen
    have hstart : (Batch.start s).sheet.dump = [] := hempty
    rw [dump_putAll (by rwa [hstart]) hseen hput, hstart, List.nil_append]
  rw [stops_iff]
  have hafter := afterPuts_enterAll hin
  generalize s.enterAll contents = r at hafter ⊢
  cases hafter with
  | @concluded b hput hstaged =>
    have hanswer := answer_conclude b.sheet (b.sheet.affected b.touched) b.events
      [.loaded contents.size b.found.length] b.found
    have hcalm : (b.sheet.conclude none (b.sheet.affected b.touched) b.events
        [.loaded contents.size b.found.length] b.found).answer ≠ .error .halted := by
      rcases hanswer with hanswer | ⟨fault, hanswer⟩ <;> rw [hanswer] <;> simp
    rw [hput]
    refine ⟨⟨fun h => absurd h hcalm, fun ⟨_, h⟩ => by cases h⟩, fun _ => ?_, fun h => absurd h hcalm⟩
    rw [dump_conclude (hstaged.formed hs)]
    exact hdump hput hsorted hvisible
  | @halted b _ _ hput _ _ =>
    refine ⟨⟨fun _ => ⟨b, hput⟩, fun _ => rfl⟩, fun h => absurd rfl h, fun _ => ?_⟩
    unfold Batch.putAll at hput
    obtain ⟨before, ⟨a, content⟩, after, c, hitems, hbefore, hfail⟩ := foldlM_eq_error.mp hput
    obtain ⟨hcontent, hsilent⟩ := exists_put_eq_error.mp ⟨b, hfail⟩
    rw [hitems] at hsorted hvisible
    obtain ⟨hsorted', -, hlater⟩ := List.pairwise_append.mp hsorted
    have hc := hdump hbefore hsorted' fun item hitem => hvisible item (List.mem_append_left _ hitem)
    have hlimits : c.sheet.limits = s.limits := (apart_of_putAll (b := .start s) hs
      (fun item hitem => hin item (by rw [hitems]; exact List.mem_append_left _ hitem)) hbefore).1.limits
    refine ⟨before, a, content, after, hitems, ?_, ?_⟩
    · dsimp only
      rw [sheet_of_put_visible hcontent (.inr hfail), dump_stage, hc]
      rw [hc]
      exact fun item hitem => hlater item hitem _ List.mem_cons_self
    · dsimp only
      rw [sheet_of_put_visible hcontent (.inr hfail), ← hlimits]
      exact unwritable_of_stage hsilent

/-! ## Moved contents -/

theorem exists_shiftText_of_movedContents (h : s.movedContents e = .ok contents) {c : Cell}
    (hc : s.cells[a]? = some c) (ha : (a.shift? e).isSome) :
    ∃ text, Formula.shiftText e c.content = .ok text := by
  cases htext : Formula.shiftText e c.content with
  | ok text => exact ⟨text, rfl⟩
  | error limit =>
    have hmem := Std.ExtTreeMap.mem_toList_iff_getElem?_eq_some.mpr hc
    obtain ⟨before, after, hitems⟩ := List.append_of_mem hmem
    obtain ⟨x, hx⟩ := Option.isSome_iff_exists.mp ha
    unfold movedContents at h
    rw [hitems, List.foldlM_append] at h
    obtain ⟨found, -, hrest⟩ := bind_eq_ok.mp h
    rw [List.foldlM_cons] at hrest
    obtain ⟨next, hnext, -⟩ := bind_eq_ok.mp hrest
    obtain ⟨place, hplace, -⟩ := bind_eq_ok.mp hnext
    rcases moveContent_eq_ok hplace with ⟨hdeleted, -⟩ | ⟨y, text, -, hmoved, -⟩
    · rw [hx] at hdeleted
      contradiction
    · rw [htext] at hmoved
      contradiction

/-- Contents cannot be moved if one of those that are left cannot be rewritten. -/
theorem exists_of_movedContents_eq_error {limit : Number.DigitLimit}
    (h : s.movedContents e = .error limit) : ∃ (a : Address) (c : Cell), s.cells[a]? = some c ∧
      (a.shift? e).isSome ∧ Formula.shiftText e c.content = .error limit := by
  unfold movedContents at h
  obtain ⟨before, ⟨a, c⟩, after, found, hitems, -, hfail⟩ := foldlM_eq_error.mp h
  refine ⟨a, c, ?_, ?_⟩
  · rw [← Std.ExtTreeMap.mem_toList_iff_getElem?_eq_some, hitems]
    simp
  · dsimp only at hfail
    cases hplace : moveContent e a c.content with
    | ok place =>
      rw [hplace] at hfail
      cases place <;> contradiction
    | error limit' =>
      rw [hplace] at hfail
      cases hfail
      unfold moveContent at hplace
      split at hplace
      · contradiction
      · rename_i b hb
        rw [hb]
        exact ⟨rfl, map_eq_error.mp hplace⟩

/-- The moved contents are what the edit makes of the cells in their order. -/
theorem relocated_movedContents (h : s.movedContents e = .ok contents) :
    Relocated e s.dump contents.toList := by
  have hleft : ∀ item ∈ s.dump, (item.1.shift? e).isSome →
      ∃ text, Formula.shiftText e item.2 = .ok text := by
    intro item hitem hsome
    obtain ⟨⟨a, c⟩, hmem, rfl⟩ := List.mem_map.mp hitem
    exact exists_shiftText_of_movedContents h (Std.ExtTreeMap.mem_toList_iff_getElem?_eq_some.mp hmem) hsome
  obtain ⟨moved, hmoved⟩ := Relocated.exists_of_forall hleft
  have hsame : contents.toList = moved := by
    refine eq_of_pairwise (pairwise_toList contents) (hmoved.pairwise (pairwise_dump s)) ?_
    rintro ⟨b, text⟩
    rw [Std.ExtTreeMap.mem_toList_iff_getElem?_eq_some, getElem?_movedContents h, hmoved.mem_iff]
    constructor
    · rintro ⟨a, c, hc, hb, htext⟩
      exact ⟨a, c.content, mem_dump.mpr ⟨c.kind, form?_of_getElem? hc⟩, hb, htext⟩
    · rintro ⟨a, content, hmem, hb, htext⟩
      obtain ⟨kind, ha⟩ := mem_dump.mp hmem
      obtain ⟨c, hc, heq⟩ := Option.map_eq_some_iff.mp ha
      cases heq
      exact ⟨a, c, hc, hb, htext⟩
  rwa [hsame]

/-! ## Settings -/

/-- Whether two sheets have the same bounds and give out the same settings. -/
structure SameLimits (s t : Sheet) : Prop where
  limits : t.limits = s.limits
  settings : t.settings = s.settings

namespace SameLimits

variable {u : Sheet}

theorem refl (s : Sheet) : SameLimits s s := ⟨rfl, rfl⟩

theorem trans (h : SameLimits s t) (h' : SameLimits t u) : SameLimits s u :=
  ⟨h'.limits.trans h.limits, h'.settings.trans h.settings⟩

theorem stage (s : Sheet) (a : Address) (content : String) : SameLimits s (s.stage a content).1 :=
  ⟨limits_stage s a content, settings_stage s a content⟩

theorem calculate (h : s.calculate a = .ok t) : SameLimits s t := by
  rcases calculate_cases s a with ⟨-, heq⟩ | ⟨c, -, ⟨v, -, heq⟩ | ⟨fault, -, heq⟩⟩
  · rw [heq] at h
    cases h
    exact refl s
  · rw [heq] at h
    cases h
    exact ⟨rfl, rfl⟩
  · rw [heq] at h
    contradiction

theorem calculateAll (order : List Address) :
    (∀ t, s.calculateAll order = .ok t → SameLimits s t) ∧
      ∀ broken, s.calculateAll order = .error broken → SameLimits s broken.sheet := by
  induction order generalizing s with
  | nil =>
    refine ⟨fun t ht => ?_, fun broken hbroken => by contradiction⟩
    cases ht
    exact refl s
  | cons a rest ih =>
    rw [calculateAll_cons]
    split
    · rename_i u hu
      have hsame := calculate hu
      exact ⟨fun t ht => hsame.trans (ih.1 t ht), fun broken hbroken => hsame.trans (ih.2 broken hbroken)⟩
    · refine ⟨fun t ht => by contradiction, fun broken hbroken => ?_⟩
      cases hbroken
      exact List.foldlRecOn rest _ ⟨rfl, rfl⟩ fun u hu b _ => hu.trans ⟨rfl, rfl⟩

theorem conclude {α : Type} (s : Sheet) (trigger : Option Address) (cells : AddressSet)
    (before after : List Event) (answer : α) :
    SameLimits s (s.conclude trigger cells before after answer).sheet := by
  obtain ⟨hok, hbroken⟩ := calculateAll (s := s) (s.graph.schedule (cells.filter fun a =>
    s.cells.contains a)).order
  rw [conclude_eq, recalculate_eq]
  dsimp only
  split
  · rename_i u hpass
    obtain ⟨v, hv, rfl⟩ := map_eq_ok.mp hpass
    have hsame := hok v hv
    split
    · exact ⟨hsame.limits, hsame.settings⟩
    · exact ⟨hsame.limits, hsame.settings⟩
  · rename_i broken hpass
    exact hbroken broken (map_eq_error.mp hpass)

theorem clearAt (s : Sheet) (a : Address) : SameLimits s (s.clearAt a).sheet := by
  unfold Sheet.clearAt
  dsimp only
  split
  · have hvacated : SameLimits s (s.vacate a) := ⟨rfl, rfl⟩
    exact hvacated.trans (conclude ..)
  · exact ⟨rfl, rfl⟩

theorem enter (s : Sheet) (a : Address) (content : String) : SameLimits s (s.enter a content).sheet := by
  have hstaged := stage s a content
  have hafter := s.afterStage_enter a content
  generalize s.enter a content = r at hafter ⊢
  cases hafter with
  | halted _ => exact hstaged
  | rested _ _ => exact ⟨hstaged.limits, hstaged.settings⟩
  | concluded _ _ _ => exact hstaged.trans (.conclude ..)

theorem set (s : Sheet) (place : Address.Given) (content : Datum) :
    SameLimits s (s.set place content).sheet := by
  unfold Sheet.set
  split
  · split
    · exact refl s
    · split
      · exact clearAt ..
      · exact enter ..
  · exact refl s

theorem put {item : Address × String} (h : b.put item = .ok b' ∨ b.put item = .error b') :
    SameLimits b.sheet b'.sheet := by
  obtain ⟨a, content⟩ := item
  have hafter := afterPut_put b a content
  rcases h with h | h <;> rw [h] at hafter
  · cases hafter with
    | emptied _ _ | kept _ _ => exact ⟨rfl, rfl⟩
    | staged _ _ => exact stage b.sheet a content
  · cases hafter with
    | halted _ _ => exact stage b.sheet a content

theorem putAll (h : b.putAll items = .ok b' ∨ b.putAll items = .error b') :
    SameLimits b.sheet b'.sheet := by
  have hends : ∀ {items : List (Address × String)} {b' : Batch}, items.foldlM Batch.put b = .ok b' →
      SameLimits b.sheet b'.sheet := fun hput =>
    foldlM_invariant (p := fun c : Batch => SameLimits b.sheet c.sheet)
      (fun _ _ _ _ hsame hnext => hsame.trans (put (.inl hnext))) (refl _) hput
  unfold Batch.putAll at h
  rcases h with h | h
  · exact hends h
  · obtain ⟨before, item, after, c, -, hbefore, hfail⟩ := foldlM_eq_error.mp h
    exact (hends hbefore).trans (put (.inr hfail))

theorem enterAll (s : Sheet) (contents : AddressMap String) :
    SameLimits s (s.enterAll contents).sheet := by
  unfold Sheet.enterAll
  split
  · rename_i b hput
    exact putAll (b := .start s) (.inr hput)
  · rename_i b hput
    exact .trans (putAll (b := .start s) (.inl hput)) (.conclude ..)

theorem load (s : Sheet) (items : List (Address.Given × Datum)) :
    SameLimits s (s.load items).sheet := by
  unfold Sheet.load
  split
  · exact refl s
  · split
    · exact enterAll s _
    · split
      · rename_i b hput
        exact putAll (b := .start s) (.inr hput)
      · rename_i b hput
        exact putAll (b := .start s) (.inl hput)

end SameLimits

theorem settings_emptied (h : s.settings = s.limits) :
    (s.emptied e).settings = (s.emptied e).limits := by
  unfold emptied Limits.adopt Limits.edit
  dsimp only
  rw [h]
  cases e.axis <;> rfl

/-- An edit of lines enters the moved contents, unless it is refused. -/
theorem sheet_restructure (s : Sheet) (e : LineEdit) :
    (∃ limit, s.movedContents e = .error limit ∧ s.restructure e = s.refuse (.tooLong limit)) ∨
      ∃ contents, s.movedContents e = .ok contents ∧
        (s.restructure e).sheet = ((s.emptied e).enterAll contents).sheet ∧
        ((s.restructure e).answer = ((s.emptied e).enterAll contents).answer ∨
          (s.restructure e).answer = .error .untold ∧
            ∃ found, ((s.emptied e).enterAll contents).answer = .ok found) := by
  have hafter := s.afterMove_restructure e
  generalize s.restructure e = r at hafter ⊢
  cases hafter with
  | refused hlimit => exact .inl ⟨_, hlimit, rfl⟩
  | told hcontents hfound => exact .inr ⟨_, hcontents, rfl, .inl hfound.symm⟩
  | untold hcontents hfound _ => exact .inr ⟨_, hcontents, rfl, .inr ⟨rfl, _, hfound⟩⟩
  | failed hcontents hfault => exact .inr ⟨_, hcontents, rfl, .inl hfault.symm⟩

theorem settings_restructure (h : s.settings = s.limits) (e : LineEdit) :
    (s.restructure e).sheet.settings = (s.restructure e).sheet.limits := by
  rcases sheet_restructure s e with ⟨limit, -, heq⟩ | ⟨contents, -, hsheet, -⟩
  · rw [heq]
    exact h
  · have hsame := SameLimits.enterAll (s.emptied e) contents
    rw [hsheet, hsame.settings, hsame.limits]
    exact settings_emptied h

theorem MovesLines.settings {r : Edited (Except Fault (List Diagnostic))} (hmoves : s.MovesLines r)
    (h : s.settings = s.limits) : r.sheet.settings = r.sheet.limits := by
  cases hmoves with
  | refused _ => exact h
  | moved _ _ _ => exact settings_restructure h _

/-- Edits leave the bounds and the settings in agreement. -/
theorem settings_attempt (h : s.settings = s.limits) (call : Call) :
    (s.attempt call).sheet.settings = (s.attempt call).sheet.limits := by
  have hsame : ∀ {t : Sheet}, SameLimits s t → t.settings = t.limits := fun hsame => by
    rw [hsame.settings, hsame.limits, h]
  cases call with
  | set place content => exact hsame (.set s place content)
  | clear place =>
    unfold attempt
    dsimp only
    rw [clear_eq_set]
    exact hsame (.set s place _)
  | load items => exact hsame (.load s items)
  | recalculateAll => exact hsame (.conclude ..)
  | insertLines axis index count => exact (movesLines_insert s axis index count).settings h
  | deleteLines axis index count => exact (movesLines_delete s axis index count).settings h

theorem settings_attempts (limits : Limits) (calls : List Call) :
    ((new limits).attempts calls).settings = ((new limits).attempts calls).limits := by
  unfold attempts
  induction calls using List.reverseRecOn with
  | nil => rfl
  | append_singleton calls call ih =>
    rw [List.foldl_concat]
    exact settings_attempt ih call

/-! ## The whole edit -/

/-- Edits of lines with a valid place and count, and what they do to the lines. -/
inductive Restructures (s : Sheet) : Call → LineEdit → Prop where
  | insert {axis : Axis} {index count : Int} :
    0 ≤ index → index ≤ s.lineCount axis → 1 ≤ count →
      Restructures s (.insertLines axis index count) ⟨axis, index, count⟩
  | delete {axis : Axis} {index count : Int} :
    0 ≤ index → index < s.lineCount axis → 1 ≤ count →
      Restructures s (.deleteLines axis index count)
        ⟨axis, index, -min count (s.lineCount axis - index)⟩

/-- Whether an insertion asks for more columns than there can be. -/
def Widens (s : Sheet) (e : LineEdit) : Prop :=
  e.axis = .col ∧ 0 < e.count ∧ mostColumns < s.lineCount .col + e.count

theorem Restructures.attempt_eq {call : Call} (h : s.Restructures call e) :
    0 ≤ e.index ∧ (0 < e.count ∨ e.stop ≤ s.lineCount e.axis) ∧
      (s.Widens e ∧ s.attempt call = ⟨s, [], some .tooManyColumns⟩ ∨
        s.attempt call = (s.restructure e).toFault) := by
  cases h with
  | @insert axis index count hindex hlast hcount =>
    refine ⟨hindex, .inl (by dsimp only; omega), ?_⟩
    unfold attempt insertLines
    dsimp only
    rw [if_neg (by omega), if_neg (by omega)]
    split
    · rename_i hwide
      obtain ⟨rfl, hwide⟩ := hwide
      exact .inl ⟨⟨rfl, by dsimp only; omega, hwide⟩, rfl⟩
    · exact .inr rfl
  | @delete axis index count hindex hlast hcount =>
    refine ⟨hindex, .inr (by unfold LineEdit.stop; dsimp only; omega), .inr ?_⟩
    unfold attempt deleteLines
    dsimp only
    rw [if_neg (by omega), if_neg (by omega)]

theorem lineCount_edit (s : Sheet) (e : LineEdit) :
    (s.emptied e).lineCount e.axis = max 1 (s.lineCount e.axis + e.count) := by
  unfold lineCount emptied Limits.edit LineEdit.resize
  cases haxis : e.axis <;> rfl

theorem answer_toFault {α : Type} {edited : Edited (Except Fault α)} {fault : Fault} :
    edited.toFault.answer = some fault ↔ edited.answer = .error fault := by
  obtain ⟨sheet, events, answer⟩ := edited
  cases answer <;> simp [Edited.toFault, faultOf]

/-- What is left after an edit of lines that was not refused, if its contents are those moved. -/
structure Resettled (s : Sheet) (e : LineEdit) (moved : List (Address × String))
    (r : Edited (Option Fault)) : Prop where
  relocated : Relocated e s.dump moved
  sorted : moved.Pairwise fun item later => item.1.Precedes later.1
  inside : ∀ item ∈ moved, r.sheet.limits.Holds item.1
  visible : ∀ item ∈ moved, Text.isAllBlank item.2 = false
  limits : r.sheet.limits = s.limits.edit e
  lines : r.sheet.lineCount e.axis = max 1 (s.lineCount e.axis + e.count)
  across : r.sheet.lineCount e.axis.other = s.lineCount e.axis.other
  settings : r.sheet.settings = r.sheet.limits
  dump : r.answer ≠ some .halted → r.sheet.dump = moved
  halted : r.answer = some .halted ↔ (s.emptied e).Stops moved
  /-- A refused formula that cannot be told of is the last cell that is left. -/
  stopped : r.answer = some .halted → ∃ before a content after,
    moved = before ++ (a, content) :: after ∧ r.sheet.dump = before ++ [(a, content)] ∧
      (a.isWritable = false ∨ r.sheet.Oversized a ∧ Number.isWritable s.limits.rangeCells = false)
  untold : r.answer = some .untold →
    Number.isWritable e.index = false ∨ Number.isWritable e.count = false
  faults : ∀ fault, r.answer = some fault → fault = .halted ∨ fault = .untold ∨
    ∃ f, fault = .precision f ∧ Number.maxPrecision < s.limits.precision.val

theorem fault_enterAll {fault : Fault} (h : (s.enterAll contents).answer = .error fault) :
    fault = .halted ∨ ∃ f, fault = .precision f := by
  unfold enterAll at h
  split at h
  · cases h
    exact .inl rfl
  · rename_i b _
    rcases answer_conclude b.sheet (b.sheet.affected b.touched) b.events
      [.loaded contents.size b.found.length] b.found with hok | ⟨f, hbroken⟩
    · rw [hok] at h
      cases h
    · rw [hbroken] at h
      cases h
      exact .inr ⟨f, rfl⟩

theorem resettled (hs : s.Formed) (hbounded : s.Bounded) (hagrees : s.settings = s.limits) (hindex : 0 ≤ e.index)
    (hlast : 0 < e.count ∨ e.stop ≤ s.lineCount e.axis) (hcontents : s.movedContents e = .ok contents)
    (hsheet : (s.restructure e).sheet = ((s.emptied e).enterAll contents).sheet)
    (hanswer : (s.restructure e).answer = ((s.emptied e).enterAll contents).answer ∨
      (s.restructure e).answer = .error .untold ∧
        ∃ found, ((s.emptied e).enterAll contents).answer = .ok found) :
    Resettled s e contents.toList (s.restructure e).toFault := by
  have hinside : ∀ item ∈ contents.toList, (s.emptied e).limits.Holds item.1 := fun item hitem =>
    inside_movedContents hs hindex hlast hcontents item.1 (mem_of_mem_toList hitem)
  have hvisible : ∀ item ∈ contents.toList, Text.isAllBlank item.2 = false := fun item hitem =>
    visible_movedContents hs hcontents _ _ (Std.ExtTreeMap.mem_toList_iff_getElem?_eq_some.mp hitem)
  have hlimits : (s.restructure e).sheet.limits = (s.emptied e).limits :=
    hsheet ▸ (SameLimits.enterAll (s.emptied e) contents).limits
  have hlines : ∀ axis, (s.restructure e).sheet.lineCount axis = (s.emptied e).lineCount axis :=
    fun axis => by unfold lineCount; rw [hlimits]
  have hempty : (s.emptied e).dump = [] := by
    rw [List.eq_nil_iff_forall_not_mem]
    rintro ⟨a, content⟩ hmem
    obtain ⟨kind, ha⟩ := mem_dump.mp hmem
    simp [emptied, Sheet.form?] at ha
  obtain ⟨hstops, hdump, hstopped⟩ := dump_enterAll hempty formed_of_empty hinside hvisible
  have hhalted : (s.restructure e).toFault.answer = some .halted ↔
      ((s.emptied e).enterAll contents).answer = .error .halted := by
    rw [answer_toFault]
    rcases hanswer with hanswer | ⟨hanswer, found, hfound⟩
    · rw [hanswer]
    · rw [hanswer, hfound]
      simp
  rw [← hsheet] at hdump hstopped
  refine ⟨relocated_movedContents hcontents, pairwise_toList contents, fun item hitem => ?_, hvisible,
    hlimits, (hlines _).trans (lineCount_edit s e), (hlines _).trans lineCount_emptied_other,
    settings_restructure hagrees e, fun h => hdump (mt hhalted.mpr h), hhalted.trans hstops,
    fun h => ?_, fun h => untold_of_restructure (answer_toFault.mp h), fun fault hfault => ?_⟩
  · exact hlimits ▸ hinside item hitem
  · have hrange : (s.emptied e).limits.rangeCells = s.limits.rangeCells := Limits.rangeCells_edit
    exact hrange ▸ hstopped (hhalted.mp h)
  · rcases hanswer with hanswer | ⟨huntold, -⟩
    · rcases fault_enterAll (hanswer ▸ answer_toFault.mp hfault) with rfl | ⟨f, rfl⟩
      · exact .inl rfl
      · have hfails : Fails s [] (s.restructure e) := fails_restructure hs hindex hlast
        exact .inr (.inr ⟨f, rfl, (hfails.failure hfault).precision_lt hs hbounded⟩)
    · rw [answer_toFault, huntold] at hfault
      cases hfault
      exact .inr (.inl rfl)

theorem Resettled.calm {r : Edited (Option Fault)} (h : Resettled s e moved r)
    (hprecision : s.limits.precision.val ≤ Number.maxPrecision)
    (hrows : Number.isWritable r.sheet.limits.rows) (hranges : r.sheet.TellsRanges)
    (hindex : Number.isWritable e.index) (hcount : Number.isWritable e.count) : r.answer = none := by
  by_contra hfail
  obtain ⟨fault, hfault⟩ := Option.ne_none_iff_exists'.mp hfail
  rcases h.faults fault hfault with rfl | rfl | ⟨f, rfl, hgreat⟩
  · obtain ⟨before, a, content, after, hmoved, -, hrow | ⟨hover, hlimit⟩⟩ := h.stopped hfault
    · have hin : r.sheet.limits.Holds a := h.inside (a, content) (by rw [hmoved]; simp)
      rw [isWritable_of_holds hin hrows] at hrow
      cases hrow
    · have hwritable := hranges ⟨a, hover⟩
      rw [h.limits, Limits.rangeCells_edit, hlimit] at hwritable
      cases hwritable
  · rcases h.untold hfault with hlong | hlong
    · rw [hindex] at hlong
      cases hlong
    · rw [hcount] at hlong
      cases hlong
  · omega

/-- An edit of lines, after any edits. Either it is refused and nothing has changed, since there would be
too many columns or a cell that is left cannot be rewritten. Or the sheet has the new bounds, which its
settings tell, and exactly the cells that are left, each once, in their order, inside the bounds and with
visible contents; this holds also if the calculation breaks off. Only a formula that is refused in a row
whose number is too long to tell of it, or for a range whose limit is, stops the edit before all cells are
there. The edit does not fail where the precision is not too great and the numbers of all rows, of the place
and of the count can be written, and so can the limit for ranges if one is over it. -/
theorem attempt_relocated (limits : Limits) (calls : List Call) (call : Call) (e : LineEdit) :
    let s := (new limits).attempts calls
    let r := s.attempt call
    s.Restructures call e →
      r.sheet = s ∧ (r.answer = some .tooManyColumns ∧ s.Widens e ∨
        ∃ limit, r.answer = some (.tooLong limit) ∧ ∃ (a : Address) (c : Cell), s.cells[a]? = some c ∧
          (a.shift? e).isSome ∧ Formula.shiftText e c.content = .error limit) ∨
      (∃ moved, Resettled s e moved r) ∧
        (limits.precision.val ≤ Number.maxPrecision → Number.isWritable r.sheet.limits.rows →
          r.sheet.TellsRanges → Number.isWritable e.index → Number.isWritable e.count →
            r.answer = none) := by
  intro s r hcall
  obtain ⟨hs, hprecision⟩ := formed_attempts limits calls
  have hagrees : s.settings = s.limits := settings_attempts limits calls
  obtain ⟨hindex, hlast, ⟨hwide, hr⟩ | hr⟩ := hcall.attempt_eq
  · exact .inl ⟨congrArg Edited.sheet hr, .inl ⟨congrArg Edited.answer hr, hwide⟩⟩
  · have hr : r = (s.restructure e).toFault := hr
    rw [hr]
    rcases sheet_restructure s e with ⟨limit, hlimit, heq⟩ | ⟨contents, hcontents, hsheet, hanswer⟩
    · rw [heq]
      exact .inl ⟨rfl, .inr ⟨limit, rfl, exists_of_movedContents_eq_error hlimit⟩⟩
    · have hresettled := resettled hs (bounded_attempts limits calls) hagrees hindex hlast hcontents
        hsheet hanswer
      exact .inr ⟨⟨_, hresettled⟩, fun hprecise hrows hranges hindex hcount =>
        hresettled.calm (hprecision ▸ hprecise) hrows hranges hindex hcount⟩

private def stacked : List (Address × String) :=
  [(⟨0, 0⟩, "=A3*2"), (⟨1, 0⟩, "4"), (⟨2, 0⟩, "5")]

private theorem holds_stacked : ∀ item ∈ stacked, standard.Holds item.1 := by
  simp [stacked, Limits.Holds, standard]

private theorem dump_stacked : ((new standard).run (setEach stacked)).dump = stacked := by
  refine eq_of_pairwise (pairwise_dump _) (by simp [stacked, Address.Precedes]) fun (a, content) => ?_
  rw [mem_dump]
  constructor
  · rintro ⟨kind, hform⟩
    obtain ⟨c, hc, hsame⟩ := Option.map_eq_some_iff.mp hform
    cases hsame
    exact mem_of_setEach holds_stacked hc
  · intro hmem
    have hstands : stacked.foldl (fun found item => if a = item.1 then standing? item.2 else found) none =
        some content := by
      simp only [stacked, List.mem_cons, Prod.mk.injEq, List.not_mem_nil, or_false] at hmem
      rcases hmem with ⟨rfl, rfl⟩ | ⟨rfl, rfl⟩ | ⟨rfl, rfl⟩ <;> decide
    obtain ⟨c, hc, rfl⟩ := exists_of_setEach holds_stacked a content hstands
    exact ⟨c.kind, form?_of_getElem? hc⟩

private theorem shiftText_stacked : Formula.shiftText ⟨.row, 1, -1⟩ "=A3*2" = .ok "=A2 * 2" :=
  eq_ok_of_toOption (by decide +kernel)

/-- A cell in the deleted row is left out, one below it moves up, and the formula above them is rewritten
for that. -/
theorem attempt_relocated_formula :
    let s := (new standard).attempts [.set (⟨0, 0⟩ : Address).given (.text "=A3*2"),
      .set (⟨1, 0⟩ : Address).given (.text "4"), .set (⟨2, 0⟩ : Address).given (.text "5")]
    let r := s.attempt (.deleteLines .row 1 1)
    r.answer = none ∧ r.sheet.dump = [(⟨0, 0⟩, "=A2 * 2"), (⟨1, 0⟩, "5")] := by
  intro s r
  have hlimits : s.limits = standard := limits_setEach formed_of_empty stacked
  have hdump : s.dump = stacked := dump_stacked
  have hcall : s.Restructures (.deleteLines .row 1 1) ⟨.row, 1, -1⟩ := by
    have hcount : -(min 1 (s.lineCount .row - 1)) = -1 := by
      rw [lineCount, hlimits]
      decide
    exact hcount ▸ .delete (by decide) (by rw [lineCount, hlimits]; decide) (by decide)
  have hshift : ∀ {a : Address} {c : Cell} {limit : Number.DigitLimit}, s.cells[a]? = some c →
      Formula.shiftText ⟨.row, 1, -1⟩ c.content ≠ .error limit := by
    intro a c limit hc hfail
    have hmem := mem_of_setEach holds_stacked hc
    simp only [stacked, List.mem_cons, Prod.mk.injEq, List.not_mem_nil, or_false] at hmem
    rcases hmem with ⟨-, hcontent⟩ | ⟨-, hcontent⟩ | ⟨-, hcontent⟩
    all_goals rw [hcontent] at hfail
    · rw [shiftText_stacked] at hfail
      cases hfail
    · cases hfail
    · cases hfail
  rcases attempt_relocated standard _ _ _ hcall with
    ⟨-, ⟨-, hwide⟩ | ⟨limit, -, a, c, hc, -, hfail⟩⟩ | ⟨⟨moved, hresettled⟩, hcalm⟩
  · cases hwide.1
  · exact absurd hfail (hshift hc)
  · have hlimits' : r.sheet.limits = standard.edit ⟨.row, 1, -1⟩ := hlimits ▸ hresettled.limits
    have hanswer : r.answer = none := by
      refine hcalm (by decide +kernel) ?_ (fun _ => ?_) (by decide +kernel) (by decide +kernel)
      all_goals rw [show Sheet.attempt _ _ = r from rfl, hlimits']; decide +kernel
    refine ⟨hanswer, ?_⟩
    have hmoved := hresettled.relocated
    rw [show (new standard).attempts _ = s from rfl, hdump] at hmoved
    rw [hresettled.dump (by rw [show Sheet.attempt _ _ = r from rfl, hanswer]; simp)]
    exact hmoved.unique (.kept rfl shiftText_stacked (.deleted rfl (.kept rfl rfl .nil)))

end Sheet
end Spreadsheet
