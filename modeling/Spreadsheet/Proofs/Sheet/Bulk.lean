import Spreadsheet.Proofs.Sheet.Consistency

/-! Many cells at once against one cell after the other. Both put the same contents in. The values agree
wherever no cell refused for a cycle is read, although the single edits calculate on the way what the
batch calculates at its end. -/
namespace Spreadsheet.Sheet

/-- The diagnostics of cells that are set one after the other. -/
def toldEach (s : Sheet) : List (Address × String) → List Diagnostic
  | [] => []
  | (a, content) :: items =>
    let e := s.set a.given (.text content)
    told e.answer ++ e.sheet.toldEach items

theorem excused_iff {s t : Sheet} (h : Alike s t) {a : Address} : s.Excused a ↔ t.Excused a := by
  unfold Excused
  simp only [h.graph, h.circular_iff]

theorem affected_iff {s t : Sheet} (h : Alike s t) {touched : AddressSet} {a : Address} :
    s.Affected touched a ↔ t.Affected touched a := by
  unfold Affected
  rw [h.graph]

/-- Two changes of one sheet that touch the same cells and put the same contents in agree in the values
of all cells that wait for no cell refused for a cycle. -/
theorem Refreshed.agree {s u v : Sheet} {touched : AddressSet} (hu : Refreshed touched s u)
    (hv : Refreshed touched s v) (h : Alike u v) (hformed : u.Formed) :
    ∀ a, ¬u.Excused a → u.cells[a]? = v.cells[a]? := by
  apply h.agree hformed
  · rintro a b ha hab ⟨c, hway, hc⟩
    exact ha ⟨c, .head hab hway, hc⟩
  · intro a ha
    by_cases haffected : u.Affected touched a
    · right
      have haffected' := (affected_iff h).mp haffected
      have ha' : ¬v.Excused a := fun hexcused => ha ((excused_iff h).mpr hexcused)
      exact ⟨(hu.settled a haffected).resolve_right ha, (hv.settled a haffected').resolve_right ha'⟩
    · left
      rw [hu.kept a haffected, hv.kept a fun haffected' => haffected ((affected_iff h).mpr haffected')]

/-! ## The simulation -/

/-- One more content of a batch, and the same cell set on its own. -/
theorem Alike.set {b : Batch} {t : Sheet} (h : Alike b.sheet t) (ht : t.Formed)
    {item : Address × String} (hin : t.limits.Holds item.1)
    {e : Edited (Except Fault (Option Diagnostic))} (he : t.set item.1.given (.text item.2) = e) :
    (∃ b' touched, b.put item = .ok b' ∧ Alike b'.sheet e.sheet ∧ b'.touched = b.touched ∪ touched ∧
        ((∀ f, faultOf e.answer = some f → f.interrupts = false) →
          Refreshed touched t e.sheet ∧ b'.diagnostics = told e.answer ++ b.diagnostics)) ∨
      (∃ b', b.put item = .error b') ∧ e.answer = .error .halted := by
  have hentered := entered_set ht (locate_given hin) item.2
  rw [he] at hentered
  rcases h.put item with ⟨b', c, hb', hc, hlike, htouched, hdiagnostics⟩ | ⟨b', c, hb', hc⟩
  · left
    cases hentered with
    | ended hc' hend htold =>
      rw [hc] at hc'
      cases hc'
      have hstaged := staged_of_put hin hc
      refine ⟨b', c.touched, hb', hlike.trans (hend.alike (hstaged.formed ht)), htouched, ?_⟩
      exact fun hcalm => ⟨hend.refreshed hstaged ht hcalm, by rw [hdiagnostics, htold hcalm]⟩
    | halted hc' _ _ =>
      rw [hc] at hc'
      cases hc'
  · right
    cases hentered with
    | ended hc' _ _ =>
      rw [hc] at hc'
      cases hc'
    | halted _ _ hanswer => exact ⟨⟨b', hb'⟩, hanswer⟩

theorem reverse_told (answer : Except Fault (Option Diagnostic)) :
    (told answer).reverse = told answer := by
  unfold told
  split
  · rename_i found
    cases found <;> rfl
  · rfl

/-- Contents of a batch, and the same cells set one after the other. -/
theorem Alike.setEach {b : Batch} {s t : Sheet} {items : List (Address × String)}
    (h : Alike b.sheet t) (ht : t.Formed) (hin : ∀ item ∈ items, t.limits.Holds item.1) :
    (∃ b', b.putAll items = .ok b' ∧ Alike b'.sheet (t.run (Sheet.setEach items)) ∧
        (Refreshed b.touched s t → t.Uninterrupted (Sheet.setEach items) →
          Refreshed b'.touched s (t.run (Sheet.setEach items)) ∧
            b'.found = b.found ++ t.toldEach items)) ∨
      (∃ b', b.putAll items = .error b') ∧ ¬t.Uninterrupted (Sheet.setEach items) := by
  induction items generalizing b t with
  | nil => exact .inl ⟨b, rfl, h, fun hrefreshed _ => ⟨hrefreshed, by rw [toldEach, List.append_nil]⟩⟩
  | cons item items ih =>
    obtain ⟨a, content⟩ := item
    unfold Batch.putAll at ih ⊢
    rw [List.foldlM_cons, toldEach]
    generalize he : t.set a.given (.text content) = e
    have hperform : t.perform (.set a.given content) = e.toFault := by rw [← he]; rfl
    have hrun : t.run (Sheet.setEach ((a, content) :: items)) = e.sheet.run (Sheet.setEach items) := by
      rw [← he]
      rfl
    have huninterrupted : t.Uninterrupted (Sheet.setEach ((a, content) :: items)) ↔
        (∀ f, faultOf e.answer = some f → f.interrupts = false) ∧
          e.sheet.Uninterrupted (Sheet.setEach items) := by
      rw [← he]
      rfl
    have hedits := edits_set ht a.given content
    rw [he] at hedits
    rw [hrun, huninterrupted]
    rcases h.set ht (hin _ List.mem_cons_self) he with
      ⟨b', touched, hput, hlike, htouched, hcalm⟩ | ⟨⟨b', hput⟩, hhalted⟩
    · rw [hput]
      have hin' : ∀ item ∈ items, e.sheet.limits.Holds item.1 := by
        intro item hitem
        rw [hedits.limits ht]
        exact hin item (List.mem_cons_of_mem _ hitem)
      rcases ih hlike (hedits.formed ht) hin' with ⟨b'', hputAll, hlike', hrest⟩ | ⟨hfail, hhalted⟩
      · refine .inl ⟨b'', hputAll, hlike', fun hrefreshed hun => ?_⟩
        obtain ⟨hrefreshed', hdiagnostics⟩ := hcalm hun.1
        obtain ⟨hrefreshed'', hfound⟩ :=
          hrest (htouched ▸ hrefreshed.trans hrefreshed' ht) hun.2
        refine ⟨hrefreshed'', ?_⟩
        rw [hfound, Batch.found, hdiagnostics, List.reverse_append, reverse_told, List.append_assoc]
        rfl
      · exact .inr ⟨hfail, fun hun => hhalted hun.2⟩
    · rw [hput]
      refine .inr ⟨⟨b', rfl⟩, fun hun => ?_⟩
      cases hun.1 .halted (by rw [hhalted]; rfl)

/-! ## Passes over many cells -/

theorem recalculateAll_eq_ok {s : Sheet} (h : s.recalculateAll.answer = .ok ()) :
    s.recalculate (s.cells.keys.foldl .insert ∅) = .ok s.recalculateAll.sheet := by
  unfold recalculateAll at h ⊢
  rw [conclude_eq] at h ⊢
  split at h
  · rename_i t hpass
    rw [hpass]
    rfl
  · cases h

theorem recalculateAll_of_precise {s : Sheet} (hs : s.Formed) (hbounded : s.Bounded)
    (hprecision : s.limits.precision.val ≤ Number.maxPrecision) : s.recalculateAll.answer = .ok () := by
  obtain ⟨t, hpass⟩ := exists_recalculate hs hbounded (s.cells.keys.foldl .insert ∅) hprecision
  unfold recalculateAll
  rw [conclude_eq, hpass]
  rfl

/-- Sheets that differ in values only do not differ any more when all their cells have been
calculated. -/
theorem Alike.recalculateAll {u v : Sheet} (h : Alike u v) (hu : u.Formed)
    (hok : u.recalculateAll.answer = .ok ()) :
    v.recalculateAll.answer = .ok () ∧ v.recalculateAll.sheet.cells = u.recalculateAll.sheet.cells := by
  have hpass := recalculateAll_eq_ok hok
  generalize u.recalculateAll.sheet = w at hpass ⊢
  obtain ⟨hlike, hkept, hsettled⟩ := recalculate_eq_ok hu hpass
  have hall : ∀ a, w.Settled a := by
    intro a
    by_cases ha : a ∈ u.cells
    · apply hsettled
      rw [mem_foldl_insert, Std.ExtTreeMap.mem_keys]
      exact .inr ha
    · intro c hc
      rw [hlike.mem_cells, Std.ExtTreeMap.mem_iff_isSome_getElem?, hc] at ha
      exact absurd rfl ha
  have hlike' := hlike.symm.trans h
  have hoccupied : ∀ a ∈ w.cells, a ∈ v.cells.keys.foldl .insert (∅ : AddressSet) := by
    intro a ha
    rw [mem_foldl_insert, Std.ExtTreeMap.mem_keys]
    exact .inr (hlike'.mem_cells.mp ha)
  obtain ⟨w', hpass', hcells⟩ := hlike'.recalculate (hlike.formed hu) hall hoccupied
  unfold Sheet.recalculateAll
  rw [conclude_eq]
  rw [hpass']
  exact ⟨rfl, hcells⟩

/-! ## Loading -/

section Load

variable {s : Sheet} {items : List (Address.Given × String)} {texts : AddressMap String}
  {e : Edited (Except Fault (List Diagnostic))}

/-- A load that is not halted ends like a batch. -/
theorem load_cases (htexts : s.placeAll items = .ok texts)
    (he : s.load (items.map fun (place, content) => (place, .text content)) = e) :
    (∃ b, (Batch.start s).putAll texts.toList = .ok b ∧ Staged s b.touched b.sheet ∧
        Ended b.sheet b.touched e.sheet (faultOf e.answer) ∧
          (e.answer = .ok b.found ∨ ∃ fault, e.answer = .error (.precision fault))) ∨
      (∃ b, (Batch.start s).putAll texts.toList = .error b) ∧ e.answer = .error .halted := by
  rw [load_texts, htexts] at he
  have hafter := afterPuts_enterAll (holds_of_placeAll htexts)
  change s.enterAll texts = e at he
  rw [he] at hafter
  cases hafter with
  | halted hput _ _ => exact .inr ⟨⟨_, hput⟩, rfl⟩
  | concluded hput hstaged =>
    exact .inl ⟨_, hput, hstaged, ended_conclude .., answer_conclude ..⟩

/-- A load that is not halted, beside the same cells set one after the other. -/
theorem load_simulation (hs : s.Formed) (htexts : s.placeAll items = .ok texts)
    (he : s.load (items.map fun (place, content) => (place, .text content)) = e)
    (hanswer : e.answer ≠ .error .halted) :
    Alike e.sheet (s.run (setEach texts.toList)) ∧
      ∀ found, e.answer = .ok found → s.Uninterrupted (setEach texts.toList) →
        found = s.toldEach texts.toList ∧
          ∃ touched, Refreshed touched s e.sheet ∧
            Refreshed touched s (s.run (setEach texts.toList)) := by
  obtain ⟨b, hput, hstaged, hend, htold⟩ :=
    (load_cases htexts he).resolve_right fun h => hanswer h.2
  rcases (Alike.refl s).setEach (b := .start s) (s := s) hs (holds_of_placeAll htexts) with
    ⟨b', hput', hlike, hrest⟩ | ⟨⟨b', hput'⟩, -⟩
  · rw [hput] at hput'
    cases hput'
    refine ⟨(hend.alike (hstaged.formed hs)).symm.trans hlike, fun found hfound hcalm => ?_⟩
    obtain ⟨hset, htold'⟩ := hrest (.refl s) hcalm
    have hloaded : Refreshed b.touched s e.sheet := by
      apply hend.refreshed hstaged hs
      rw [hfound]
      exact fun f hf => by cases hf
    refine ⟨?_, b.touched, hloaded, hset⟩
    rw [hfound] at htold
    rcases htold with htold | ⟨fault, htold⟩
    · cases htold
      exact htold'
    · cases htold
  · rw [hput] at hput'
    cases hput'

theorem unknown_of_load_eq_error (htexts : s.placeAll items = .ok texts)
    (he : s.load (items.map fun (place, content) => (place, .text content)) = e) {fault : Fault}
    (hanswer : e.answer = .error fault) : fault = .halted ∨ ∃ a, e.sheet.Unknown a := by
  rcases load_cases htexts he with ⟨b, -, -, -, htold | ⟨fault', htold⟩⟩ | ⟨-, hhalted⟩
  · rw [hanswer] at htold
    cases htold
  · right
    have hedits : Edits s e.sheet (faultOf e.answer) := he ▸ edits_load items
    rw [hanswer] at htold
    cases htold
    exact hedits.unknown_of_interrupts (by rw [hanswer]; rfl) rfl fun h => by cases h
  · left
    rw [hanswer] at hhalted
    cases hhalted
    rfl

theorem exists_load_eq_ok (hs : s.Formed) (hbounded : s.Bounded)
    (hprecision : s.limits.precision.val ≤ Number.maxPrecision)
    (hrows : Number.isWritable s.limits.rows) (htexts : s.placeAll items = .ok texts)
    (hranges : s.limits.TellsRanges texts.toList)
    (he : s.load (items.map fun (place, content) => (place, .text content)) = e) :
    ∃ found, e.answer = .ok found := by
  have hedits : Edits s e.sheet (faultOf e.answer) := he ▸ edits_load items
  have hin := holds_of_placeAll htexts
  rcases load_cases htexts he with ⟨b, -, -, -, htold | ⟨fault, htold⟩⟩ | ⟨⟨b, hput⟩, -⟩
  · exact ⟨b.found, htold⟩
  · rw [htold] at hedits
    cases (hedits.halted_of_interrupts hs hbounded hprecision rfl rfl).1
  · obtain ⟨item, hitem, reason, hfits, hlong⟩ := exists_rejected_of_putAll hin hput
    rw [hranges.tells hitem hfits (isWritable_of_holds (hin item hitem) hrows)] at hlong
    cases hlong

end Load

/-- Where all items have a place in the sheet, and unless a refusal cannot be told of, a load puts in what
single edits of the same cells in ascending order put in, and all values are the same when both sheets
have been calculated throughout. If nothing is interrupted, the same is told, and the values agree at
once in all cells that wait for no cell refused for a cycle. A load fails only where it leaves a cell
without a value or cannot tell of a refusal, and nothing fails as long as the precision is not too great
and the numbers of all rows are short enough to write, and so is the limit for ranges if one among the
texts is over it. -/
theorem load_run (limits : Limits) (history : List Edit) (items : List (Address.Given × String))
    (texts : AddressMap String)
    (htexts : ((new limits).run history).placeAll items = .ok texts) :
    let s := (new limits).run history
    let e := s.load (items.map fun (place, content) => (place, .text content))
    let u := e.sheet
    let v := s.run (setEach texts.toList)
    (e.answer ≠ .error .halted →
        (u.limits = v.limits ∧ u.graph = v.graph ∧ ∀ a, u.form? a = v.form? a) ∧
          (u.recalculateAll.answer = .ok () ↔ v.recalculateAll.answer = .ok ()) ∧
            (u.recalculateAll.answer = .ok () →
              u.recalculateAll.sheet.cells = v.recalculateAll.sheet.cells)) ∧
      (∀ found, e.answer = .ok found → s.Uninterrupted (setEach texts.toList) →
        found = s.toldEach texts.toList ∧ ∀ a, ¬u.Excused a → u.cells[a]? = v.cells[a]?) ∧
      (∀ fault, e.answer = .error fault → fault = .halted ∨ ∃ a, u.Unknown a) ∧
      (limits.precision.val ≤ Number.maxPrecision → Number.isWritable s.limits.rows →
        s.limits.TellsRanges texts.toList →
        (∃ found, e.answer = .ok found) ∧ s.Uninterrupted (setEach texts.toList) ∧
          u.recalculateAll.answer = .ok ()) := by
  intro s e u v
  have hs : s.Formed := formed_run limits history
  have hedits : Edits s u (faultOf e.answer) := edits_load items
  have hu := hedits.formed hs
  have hsimulated := load_simulation hs htexts (e := e) rfl
  refine ⟨fun hanswer => ?_, fun found hanswer hcalm => ?_,
    fun fault => unknown_of_load_eq_error htexts rfl, fun hprecision hrows hranges => ?_⟩
  · have hlike : Alike u v := (hsimulated hanswer).1
    have hforth := hlike.recalculateAll hu
    have hback := hlike.symm.recalculateAll (hlike.formed hu)
    exact ⟨⟨hlike.limits, hlike.graph, hlike.form?⟩,
      ⟨fun hok => (hforth hok).1, fun hok => (hback hok).1⟩, fun hok => (hforth hok).2.symm⟩
  · obtain ⟨hlike, htold⟩ := hsimulated (by rw [hanswer]; simp)
    obtain ⟨hfound, touched, hloaded, hset⟩ := htold found hanswer hcalm
    exact ⟨hfound, hloaded.agree hset hlike hu⟩
  · have hprecision' : s.limits.precision.val ≤ Number.maxPrecision := by
      rw [precision_run]
      exact hprecision
    have hlimits := hedits.limits hs
    have hbounded : s.Bounded := bounded_run limits history
    exact ⟨exists_load_eq_ok hs hbounded hprecision' hrows htexts hranges rfl,
      uninterrupted_setEach hs hbounded hprecision' hrows hranges,
      recalculateAll_of_precise hu (hedits.bounded hs hbounded) (hlimits ▸ hprecision')⟩

/-- Of two texts for one cell the later one counts; here it is refused for a cycle. -/
theorem load_circle :
    let s := (new standard).run (setEach [(⟨0, 0⟩, "=B1"), (⟨0, 2⟩, "=B1+1")])
    ∃ found, (s.load ([((⟨0, 1⟩ : Address).given, "2"), ((⟨0, 1⟩ : Address).given, "=A1")].map
      fun (place, content) => (place, .text content))).answer = .ok found := by
  intro s
  have hlimits : s.limits = standard := limits_setEach formed_of_empty _
  have hin : ∀ item ∈ [((⟨0, 1⟩ : Address), "2"), ((⟨0, 1⟩ : Address), "=A1")],
      s.limits.Holds item.1 := by
    rw [hlimits]
    simp [Limits.Holds, standard]
  obtain ⟨-, -, -, hcalm⟩ := load_run standard (setEach [(⟨0, 0⟩, "=B1"), (⟨0, 2⟩, "=B1+1")]) _ _
    (placeAll_given hin)
  refine (hcalm (by decide +kernel) (by rw [hlimits]; decide +kernel) fun _ => ?_).1
  rw [hlimits]
  decide +kernel

end Spreadsheet.Sheet
