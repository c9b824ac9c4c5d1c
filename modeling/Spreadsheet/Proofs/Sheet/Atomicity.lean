import Spreadsheet.Proofs.Sheet.Bulk
import Spreadsheet.Proofs.Sheet.Insertion
import Spreadsheet.Proofs.Sheet.Reload

/-! Edits that fail. An edit that is refused leaves the sheet as it was. Of the other failures one comes
when a load meets a content that is no text, after the contents of the cells before it were put in; the
rest come in the middle of a calculation or after it. -/
namespace Spreadsheet.Sheet

/-- An edit, with any data for its places and contents. -/
inductive Call where
  | set (place : Address.Given) (content : Datum)
  | clear (place : Address.Given)
  | load (items : List (Address.Given × Datum))
  | recalculateAll
  | insertLines (axis : Axis) (index count : Int)
  | deleteLines (axis : Axis) (index count : Int)

def attempt (s : Sheet) : Call → Edited (Option Fault)
  | .set place content => (s.set place content).toFault
  | .clear place => (s.clear place).toFault
  | .load items => (s.load items).toFault
  | .recalculateAll => s.recalculateAll.toFault
  | .insertLines axis index count => (s.insertLines axis index count).toFault
  | .deleteLines axis index count => (s.deleteLines axis index count).toFault

def attempts (s : Sheet) (calls : List Call) : Sheet :=
  calls.foldl (fun s call => (s.attempt call).sheet) s

/-- What an edit is to load. -/
def Call.items : Call → List (Address.Given × Datum)
  | .load items => items
  | _ => []

/-- What is left of a sheet by an edit that fails with a fault, where some items are to be loaded. -/
inductive Failure (s : Sheet) (items : List (Address.Given × Datum)) : Sheet → Fault → Prop where
  | refused {fault : Fault} : fault.refuses → Failure s items s fault
  /-- The contents before the one that is no text were put in. -/
  | unloadable {contents : AddressMap Datum} {b : Batch} {found : Datum} :
    s.locateAll items = .ok contents → unloadable? contents.toList = some found →
      (Batch.start s).putAll (leadingTexts contents.toList) = .ok b →
        Failure s items b.sheet (.unloadable found)
  | halted {base t u : Sheet} {touched : AddressSet} :
    (base = s ∨ ∃ e, base = s.emptied e) → Staged base touched t → Halted t u →
      Failure s items u .halted
  | broken {base t : Sheet} {touched : AddressSet} {broken : Broken} :
    (base = s ∨ ∃ e, base = s.emptied e) → Staged base touched t →
      t.recalculate (t.affected touched) = .error broken →
        Failure s items broken.sheet (.precision broken.fault)
  /-- Nothing is left to do but to tell of the edit. -/
  | untold {base t u : Sheet} {touched : AddressSet} :
    (base = s ∨ ∃ e, base = s.emptied e) → Staged base touched t →
      t.recalculate (t.affected touched) = .ok u → Failure s items u .untold

/-- Whether an edit of a sheet leaves, if it fails, what its fault tells. -/
def Fails {α : Type} (s : Sheet) (items : List (Address.Given × Datum))
    (e : Edited (Except Fault α)) : Prop :=
  ∀ fault, e.answer = .error fault → Failure s items e.sheet fault

variable {s t u base : Sheet} {b b' : Batch} {touched : AddressSet}
  {items : List (Address.Given × Datum)}

/-! ## How edits fail -/

theorem fails_refuse {α : Type} {fault : Fault} (h : fault.refuses) :
    Fails s items (s.refuse fault : Edited (Except Fault α)) := by
  intro fault' hfault
  cases hfault
  exact .refused h

theorem fails_conclude {α : Type} (hbase : base = s ∨ ∃ e, base = s.emptied e)
    (hstaged : Staged base touched t) (trigger : Option Address) (before after : List Event)
    (answer : α) : Fails s items (t.conclude trigger (t.affected touched) before after answer) := by
  rw [conclude_eq]
  split
  · rename_i u hpass
    split
    · intro fault hfault
      cases hfault
    · intro fault hfault
      cases hfault
      exact .untold hbase hstaged hpass
  · rename_i broken hpass
    intro fault hfault
    cases hfault
    exact .broken hbase hstaged hpass

theorem fails_clearAt (a : Address) : Fails s items (s.clearAt a) := by
  unfold clearAt
  dsimp only
  split
  · exact fails_conclude (.inl rfl) (.vacate a (.start ∅)) _ _ _ _
  · intro fault hfault
    cases hfault

theorem fails_enter {a : Address} (ha : s.limits.Holds a) {content : String}
    (hcontent : Text.isAllBlank content = false) : Fails s items (s.enter a content) := by
  have hafter := s.afterStage_enter a content
  generalize s.enter a content = r at hafter ⊢
  cases hafter with
  | halted hsilent =>
    intro fault hfault
    cases hfault
    exact .halted (.inl rfl) (.start ∅) ⟨a, content, ha, hcontent, hsilent, rfl⟩
  | rested _ _ =>
    intro fault hfault
    cases hfault
  | concluded _ _ hwritable =>
    exact fails_conclude (.inl rfl) (.stage a content (.start ∅) ha hcontent hwritable) _ _ _ _

theorem fails_set (place : Address.Given) (content : Datum) : Fails s items (s.set place content) := by
  unfold set
  split
  · split
    · rename_i fault hplace
      exact fails_refuse (refuses_of_locate hplace)
    · rename_i a hplace
      split
      · exact fails_clearAt a
      · rename_i hvisible
        exact fails_enter (holds_of_locate hplace) (Bool.eq_false_iff.mpr hvisible)
  · exact fails_refuse rfl

theorem fails_enterAll (hbase : base = s ∨ ∃ e, base = s.emptied e) {contents : AddressMap String}
    (hin : ∀ item ∈ contents.toList, base.limits.Holds item.1) :
    Fails s items (base.enterAll contents) := by
  have hafter := afterPuts_enterAll hin
  generalize base.enterAll contents = r at hafter ⊢
  cases hafter with
  | halted _ hstaged hhalted =>
    intro fault hfault
    cases hfault
    exact .halted hbase hstaged hhalted
  | concluded _ hstaged => exact fails_conclude hbase hstaged _ _ _ _

/-- Contents that are entered without a fault are calculated. -/
theorem passed_enterAll {contents : AddressMap String}
    (hin : ∀ item ∈ contents.toList, s.limits.Holds item.1) {found : List Diagnostic}
    (h : (s.enterAll contents).answer = .ok found) :
    ∃ touched t, Staged s touched t ∧
      t.recalculate (t.affected touched) = .ok (s.enterAll contents).sheet := by
  have hafter := afterPuts_enterAll hin
  generalize s.enterAll contents = r at hafter h ⊢
  cases hafter with
  | halted _ _ _ => cases h
  | @concluded b _ hstaged =>
    refine ⟨b.touched, b.sheet, hstaged, ?_⟩
    rw [conclude_eq] at h ⊢
    split at h
    · rename_i u hpass
      rw [hpass]
      rfl
    · cases h

/-- The cells for which contents are given lie inside the sheet. -/
theorem holds_of_locateAll {items : List (Address.Given × Datum)} {contents : AddressMap Datum}
    (h : s.locateAll items = .ok contents) : ∀ a ∈ contents, s.limits.Holds a := by
  refine foldlM_invariant (p := fun contents : AddressMap Datum => ∀ a ∈ contents, s.limits.Holds a)
    ?_ (by simp) h
  intro found item next _ hfound hnext x hx
  obtain ⟨a, ha, hnext⟩ := bind_eq_ok.mp hnext
  cases hnext
  rw [Std.ExtTreeMap.mem_insert, Std.LawfulEqOrd.compare_eq_iff_eq] at hx
  rcases hx with rfl | hx
  · exact holds_of_locate ha
  · exact hfound x hx

theorem mem_of_mem_leadingTexts {contents : List (Address × Datum)} {item : Address × String}
    (h : item ∈ leadingTexts contents) : (item.1, .text item.2) ∈ contents := by
  unfold leadingTexts at h
  obtain ⟨⟨a, content⟩, hmem, htext⟩ := List.mem_filterMap.mp h
  have hmem := List.takeWhile_subset _ hmem
  cases content with
  | text content =>
    cases htext
    exact hmem
  | _ => cases htext

theorem holds_of_leadingTexts {contents : AddressMap Datum}
    (h : s.locateAll items = .ok contents) :
    ∀ item ∈ leadingTexts contents.toList, s.limits.Holds item.1 := fun item hitem =>
  holds_of_locateAll h item.1 (mem_of_mem_toList (mem_of_mem_leadingTexts hitem))

theorem holds_of_texts {contents : AddressMap Datum} (h : s.locateAll items = .ok contents) :
    ∀ item ∈ (contents.filterMap fun a content =>
      (textContent? (a, content)).map Prod.snd).toList, s.limits.Holds item.1 := fun item hitem =>
  holds_of_locateAll h item.1 (Std.ExtTreeMap.mem_of_mem_filterMap (mem_of_mem_toList hitem))

/-- How a load goes: it is refused for an address, it enters texts, or the first content that is no text
ends it, unless a refusal before that one cannot be told of. -/
inductive AfterLoad (s : Sheet) (items : List (Address.Given × Datum)) :
    Edited (Except Fault (List Diagnostic)) → Prop where
  | refused {fault : Fault} : s.locateAll items = .error fault → AfterLoad s items (s.refuse fault)
  | entered {contents : AddressMap Datum} : s.locateAll items = .ok contents →
    unloadable? contents.toList = none → AfterLoad s items (s.enterAll (contents.filterMap
      fun a content => (textContent? (a, content)).map Prod.snd))
  | unloadable {contents : AddressMap Datum} {found : Datum} {b : Batch} :
    s.locateAll items = .ok contents → unloadable? contents.toList = some found →
      (Batch.start s).putAll (leadingTexts contents.toList) = .ok b → Staged s b.touched b.sheet →
        AfterLoad s items ⟨b.sheet, b.events, .error (.unloadable found)⟩
  | halted {contents : AddressMap Datum} {b : Batch} {touched : AddressSet} {t : Sheet} :
    s.locateAll items = .ok contents →
      (Batch.start s).putAll (leadingTexts contents.toList) = .error b → Staged s touched t →
        Halted t b.sheet → AfterLoad s items ⟨b.sheet, b.events, .error .halted⟩

theorem afterLoad_load (s : Sheet) (items : List (Address.Given × Datum)) :
    s.AfterLoad items (s.load items) := by
  unfold load
  split
  · rename_i fault hplaces
    exact .refused hplaces
  · rename_i contents hplaces
    split
    · rename_i hloadable
      exact .entered hplaces hloadable
    · rename_i found hfound
      rcases (Staged.start (s := s) ∅).putAll (b := .start s) (holds_of_leadingTexts hplaces) with
        ⟨b, hput, hstaged⟩ | ⟨b, hput, _, _, hstaged, hhalted⟩
      · rw [hput]
        exact .unloadable hplaces hfound hput hstaged
      · rw [hput]
        exact .halted hplaces hput hstaged hhalted

theorem fails_load (items : List (Address.Given × Datum)) : Fails s items (s.load items) := by
  have hafter := s.afterLoad_load items
  generalize s.load items = r at hafter ⊢
  cases hafter with
  | refused hplaces => exact fails_refuse (refuses_of_locateAll hplaces)
  | entered hplaces _ => exact fails_enterAll (.inl rfl) (holds_of_texts hplaces)
  | unloadable hplaces hfound hput _ =>
    intro fault hfault
    cases hfault
    exact .unloadable hplaces hfound hput
  | halted _ _ hstaged hhalted =>
    intro fault hfault
    cases hfault
    exact .halted (.inl rfl) hstaged hhalted

theorem fails_restructure {e : LineEdit} (hs : s.Formed) (hindex : 0 ≤ e.index)
    (hlast : 0 < e.count ∨ e.stop ≤ s.lineCount e.axis) : Fails s items (s.restructure e) := by
  have hin : ∀ contents, s.movedContents e = .ok contents →
      ∀ item ∈ contents.toList, (s.emptied e).limits.Holds item.1 := fun contents hcontents item hitem =>
    inside_movedContents hs hindex hlast hcontents item.1 (mem_of_mem_toList hitem)
  have hafter := s.afterMove_restructure e
  generalize s.restructure e = r at hafter ⊢
  intro fault hfault
  cases hafter with
  | refused _ => exact fails_refuse rfl _ hfault
  | told _ _ => cases hfault
  | untold hcontents hfound _ =>
    cases hfault
    obtain ⟨touched, t, hstaged, hpass⟩ := passed_enterAll (hin _ hcontents) hfound
    exact .untold (.inr ⟨e, rfl⟩) hstaged hpass
  | failed hcontents hfailed =>
    cases hfault
    exact fails_enterAll (.inr ⟨e, rfl⟩) (hin _ hcontents) _ hfailed

theorem MovesLines.fails {r : Edited (Except Fault (List Diagnostic))} (h : s.MovesLines r)
    (hs : s.Formed) : Fails s items r := by
  cases h with
  | refused hrefuses => exact fails_refuse hrefuses
  | moved hindex _ hlast => exact fails_restructure hs hindex hlast

theorem fails_recalculateAll (hs : s.Formed) : Fails s items s.recalculateAll := by
  unfold recalculateAll
  rw [← affected_occupied hs]
  exact fails_conclude (.inl rfl) (.start _) _ _ _ _

theorem Fails.failure {α : Type} {e : Edited (Except Fault α)} (h : Fails s items e) {fault : Fault}
    (hfault : e.toFault.answer = some fault) : Failure s items e.toFault.sheet fault := by
  obtain ⟨sheet, events, answer⟩ := e
  cases answer with
  | ok _ => cases hfault
  | error f =>
    cases hfault
    exact h _ rfl

theorem failure_of_attempt (hs : s.Formed) {call : Call} {fault : Fault}
    (h : (s.attempt call).answer = some fault) : Failure s call.items (s.attempt call).sheet fault := by
  cases call with
  | set place content => exact (fails_set place content).failure h
  | clear place =>
    unfold attempt at h ⊢
    dsimp only at h ⊢
    rw [clear_eq_set] at h ⊢
    exact (fails_set place _).failure h
  | load items => exact (fails_load items).failure h
  | recalculateAll => exact (fails_recalculateAll hs).failure h
  | insertLines axis index count => exact ((movesLines_insert s axis index count).fails hs).failure h
  | deleteLines axis index count => exact ((movesLines_delete s axis index count).fails hs).failure h

/-- A load edits the sheet, or stops at a content that is no text once those before it are put in. -/
theorem edits_or_staged_load (items : List (Address.Given × Datum)) :
    (∃ fault, Edits s (s.load items).sheet fault) ∨ ∃ touched, Staged s touched (s.load items).sheet := by
  have hafter := s.afterLoad_load items
  generalize s.load items = r at hafter ⊢
  cases hafter with
  | refused _ => exact .inr ⟨∅, .start ∅⟩
  | entered hplaces _ => exact .inl ⟨_, edits_enterAll (holds_of_texts hplaces)⟩
  | unloadable _ _ _ hstaged => exact .inr ⟨_, hstaged⟩
  | halted _ _ hstaged hhalted => exact .inl ⟨some .halted, _, _, hstaged, .inr ⟨hhalted, rfl⟩⟩

/-- A load keeps form and bounds. -/
theorem Formed.load (hs : s.Formed) (items : List (Address.Given × Datum)) :
    (s.load items).sheet.Formed ∧ (s.load items).sheet.limits = s.limits := by
  rcases edits_or_staged_load (s := s) items with ⟨fault, hedits⟩ | ⟨touched, hstaged⟩
  · exact ⟨hedits.formed hs, hedits.limits hs⟩
  · exact ⟨hstaged.formed hs, hstaged.limits⟩

/-- What every edit does: it starts from the sheet, or from the emptied sheet with new bounds, and edits
that, or it stops between two contents. -/
theorem edits_or_staged_attempt (hs : s.Formed) (call : Call) :
    ∃ base, (base = s ∨ ∃ e, base = s.emptied e) ∧
      ((∃ fault, Edits base (s.attempt call).sheet fault) ∨
        ∃ touched, Staged base touched (s.attempt call).sheet) := by
  have hperform : ∀ e, ∃ base, (base = s ∨ ∃ e, base = s.emptied e) ∧
      ((∃ fault, Edits base (s.perform e).sheet fault) ∨
        ∃ touched, Staged base touched (s.perform e).sheet) := by
    intro e
    obtain ⟨base, hbase, hedits⟩ := edits_perform hs e
    exact ⟨base, hbase, .inl ⟨_, hedits⟩⟩
  cases call with
  | set place content =>
    cases content with
    | text content => exact hperform (.set place content)
    | _ => exact ⟨s, .inl rfl, .inr ⟨∅, .start ∅⟩⟩
  | clear place => exact hperform (.clear place)
  | load items => exact ⟨s, .inl rfl, edits_or_staged_load items⟩
  | recalculateAll => exact hperform .recalculateAll
  | insertLines axis index count => exact hperform (.insertLines axis index count)
  | deleteLines axis index count => exact hperform (.deleteLines axis index count)

/-- Every edit keeps form and precision. -/
theorem Formed.attempt (hs : s.Formed) (call : Call) :
    (s.attempt call).sheet.Formed ∧
      (s.attempt call).sheet.limits.precision = s.limits.precision := by
  obtain ⟨base, hfrom, hdone⟩ := edits_or_staged_attempt hs call
  have hbase := hs.base hfrom
  have hlimits : base.limits.precision = s.limits.precision := by
    rcases hfrom with rfl | ⟨e, rfl⟩
    · rfl
    · exact Limits.precision_edit
  rcases hdone with ⟨fault, hedits⟩ | ⟨touched, hstaged⟩
  · exact ⟨hedits.formed hbase, hedits.limits hbase ▸ hlimits⟩
  · exact ⟨hstaged.formed hbase, hstaged.limits ▸ hlimits⟩

theorem formed_attempts (limits : Limits) (calls : List Call) :
    ((new limits).attempts calls).Formed ∧
      ((new limits).attempts calls).limits.precision = limits.precision := by
  unfold attempts
  induction calls using List.reverseRecOn with
  | nil => exact ⟨formed_of_empty, rfl⟩
  | append_singleton calls call ih =>
    rw [List.foldl_concat]
    obtain ⟨hformed, hprecision⟩ := ih.1.attempt call
    exact ⟨hformed, hprecision.trans ih.2⟩

theorem Bounded.attempt (hbounded : s.Bounded) (hs : s.Formed) (call : Call) :
    (s.attempt call).sheet.Bounded := by
  obtain ⟨base, hfrom, ⟨fault, hedits⟩ | ⟨touched, hstaged⟩⟩ := edits_or_staged_attempt hs call
  · exact hedits.bounded (hs.base hfrom) (hbounded.base hfrom)
  · exact hstaged.bounded (hbounded.base hfrom)

theorem bounded_attempts (limits : Limits) (calls : List Call) :
    ((new limits).attempts calls).Bounded := by
  unfold attempts
  induction calls using List.reverseRecOn with
  | nil => exact bounded_new limits
  | append_singleton calls call ih =>
    rw [List.foldl_concat]
    exact ih.attempt (formed_attempts limits calls).1 call

/-! ## Contents that change nothing -/

/-- Sheets that agree but for some cells and the edges from these. -/
structure Apart (places : List Address) (s t : Sheet) : Prop where
  limits : t.limits = s.limits
  settings : t.settings = s.settings
  recalculated : t.recalculated = s.recalculated
  cell : ∀ x : Address, x ∉ places → t.cells[x]? = s.cells[x]?
  readsOf : ∀ x, x ∉ places → t.graph.readsOf x = s.graph.readsOf x

theorem Apart.trans {places places' : List Address} (h : Apart places s t) (h' : Apart places' t u) :
    Apart (places ++ places') s u where
  limits := h'.limits.trans h.limits
  settings := h'.settings.trans h.settings
  recalculated := h'.recalculated.trans h.recalculated
  cell x hx := by
    rw [List.mem_append, not_or] at hx
    rw [h'.cell x hx.2, h.cell x hx.1]
  readsOf x hx := by
    rw [List.mem_append, not_or] at hx
    rw [h'.readsOf x hx.2, h.readsOf x hx.1]

/-- What two changes in different places come to nothing together, each of them does alone. -/
theorem Apart.eq_left {places places' : List Address} (h : Apart places s t) (h' : Apart places' t s)
    (hdisjoint : ∀ x ∈ places, x ∉ places') (hs : s.Formed) (ht : t.Formed) : t = s := by
  have hcell : ∀ x : Address, t.cells[x]? = s.cells[x]? := by
    intro x
    by_cases hx : x ∈ places
    · exact (h'.cell x (hdisjoint x hx)).symm
    · exact h.cell x hx
  have hreads : ∀ x, t.graph.readsOf x = s.graph.readsOf x := by
    intro x
    by_cases hx : x ∈ places
    · exact (h'.readsOf x (hdisjoint x hx)).symm
    · exact h.readsOf x hx
  have hcells : t.cells = s.cells := Std.ExtTreeMap.ext_getElem? hcell
  have hgraph : t.graph = s.graph := ht.sound.ext hs.sound hreads
  have hlimits := h.limits
  have hsettings := h.settings
  have hrecalculated := h.recalculated
  cases s
  cases t
  simp_all

theorem apart_of_put {item : Address × String} (hb : b.sheet.Formed) (h : b.put item = .ok b') :
    Apart [item.1] b.sheet b'.sheet := by
  obtain ⟨a, content⟩ := item
  rw [sheet_of_put hb (.inl h)]
  dsimp only
  split
  · exact ⟨rfl, rfl, rfl, fun x hx => (vacate_other _ (by simpa using hx)).1,
      fun x hx => (vacate_other _ (by simpa using hx)).2⟩
  · refine ⟨limits_stage .., settings_stage .., ?_, fun x hx => (stage_other _ _ (by simpa using hx)).1,
      fun x hx => (stage_other _ _ (by simpa using hx)).2⟩
    unfold stage
    split <;> rfl

theorem put_formed {item : Address × String} (hb : b.sheet.Formed)
    (hin : b.sheet.limits.Holds item.1) (h : b.put item = .ok b') : b'.sheet.Formed := by
  rw [sheet_of_put hb (.inl h)]
  split
  · exact hb.vacate _
  · rename_i hvisible
    exact hb.stage hin (Bool.eq_false_iff.mpr hvisible)

theorem apart_of_putAll {items : List (Address × String)} (hb : b.sheet.Formed)
    (hin : ∀ item ∈ items, b.sheet.limits.Holds item.1) (h : b.putAll items = .ok b') :
    Apart (items.map Prod.fst) b.sheet b'.sheet ∧ b'.sheet.Formed := by
  induction items generalizing b with
  | nil =>
    cases h
    exact ⟨⟨rfl, rfl, rfl, fun _ _ => rfl, fun _ _ => rfl⟩, hb⟩
  | cons item items ih =>
    obtain ⟨next, hnext, hrest⟩ := putAll_cons.mp h
    have hapart := apart_of_put hb hnext
    obtain ⟨hapart', hformed⟩ := ih (put_formed hb (hin _ List.mem_cons_self) hnext)
      (fun item hitem => hapart.limits ▸ hin item (List.mem_cons_of_mem _ hitem)) hrest
    exact ⟨hapart.trans hapart', hformed⟩

/-- What a batch makes of its sheet does not depend on what it has noted. -/
theorem put_start {item : Address × String} (hb : b.sheet.Formed) (h : b.put item = .ok b') :
    ∃ c, (Batch.start b.sheet).put item = .ok c ∧ c.sheet = b'.sheet := by
  rcases (Alike.refl b.sheet).put item with ⟨next, c, hnext, hc, -⟩ | ⟨next, c, hnext, -⟩
  · refine ⟨c, hc, ?_⟩
    rw [sheet_of_put (b := .start b.sheet) hb (.inl hc), sheet_of_put hb (.inl h)]
    rfl
  · rw [h] at hnext
    cases hnext

/-- Contents for different cells leave a sheet as it was if and only if each of them alone does. -/
theorem putAll_unchanged_iff {items : List (Address × String)} (hs : s.Formed) (hb : b.sheet = s)
    (hin : ∀ item ∈ items, s.limits.Holds item.1) (hnodup : (items.map Prod.fst).Nodup)
    (h : b.putAll items = .ok b') :
    b'.sheet = s ↔ ∀ item ∈ items, ∃ c, (Batch.start s).put item = .ok c ∧ c.sheet = s := by
  induction items generalizing b with
  | nil =>
    cases h
    simp [hb]
  | cons item items ih =>
    obtain ⟨hfresh, hnodup⟩ := List.nodup_cons.mp hnodup
    have hin' := fun later (hlater : later ∈ items) => hin later (List.mem_cons_of_mem _ hlater)
    subst hb
    obtain ⟨next, hnext, hrest⟩ := putAll_cons.mp h
    obtain ⟨c, hc, hsheet⟩ := put_start hs hnext
    have hapart := apart_of_put hs hnext
    have hformed := put_formed hs (hin _ List.mem_cons_self) hnext
    rw [List.forall_mem_cons]
    constructor
    · intro hsame
      obtain ⟨hapart', -⟩ := apart_of_putAll hformed (fun later hlater =>
        hapart.limits ▸ hin' later hlater) hrest
      have hfirst : next.sheet = b.sheet := hapart.eq_left (hsame ▸ hapart')
        (fun x hx => by rw [List.mem_singleton.mp hx]; exact hfresh) hs hformed
      exact ⟨⟨c, hc, hsheet.trans hfirst⟩, (ih hfirst hin' hnodup hrest).mp hsame⟩
    · rintro ⟨⟨c', hc', hfirst⟩, hothers⟩
      rw [hc] at hc'
      cases hc'
      exact (ih (hsheet.symm.trans hfirst) hin' hnodup hrest).mpr hothers

theorem place_of_textContent? {item : Address × Datum} {text : Address × String}
    (h : textContent? item = some text) : text.1 = item.1 := by
  obtain ⟨a, content⟩ := item
  cases content <;> cases h
  rfl

theorem nodup_leadingTexts (contents : AddressMap Datum) :
    ((leadingTexts contents.toList).map Prod.fst).Nodup := by
  have hnodup := nodup_map_fst_toList contents
  unfold leadingTexts
  rw [List.Nodup, List.pairwise_map] at hnodup ⊢
  refine (hnodup.sublist (List.takeWhile_sublist _)).filterMap _ ?_
  intro item later hne text htext text' htext'
  rw [place_of_textContent? htext, place_of_textContent? htext']
  exact hne

/-! ## Numbers that are too long -/

/-- Whether the number of a line, before or after a change, is too long to write. -/
def Overlong (s u : Sheet) : Prop :=
  ∃ axis n, 0 ≤ n ∧ Number.isWritable n = false ∧ (n ≤ s.lineCount axis ∨ n ≤ u.lineCount axis)

theorem not_overlong (h : ∀ axis, Number.isWritable (s.lineCount axis) ∧
    Number.isWritable (u.lineCount axis)) : ¬Overlong s u := by
  rintro ⟨axis, n, hn, hlong, hle | hle⟩
  · rw [isWritable_of_le hn hle (h axis).1] at hlong
    cases hlong
  · rw [isWritable_of_le hn hle (h axis).2] at hlong
    cases hlong

theorem overlong_of_holds {a : Address} (ha : s.limits.Holds a ∨ u.limits.Holds a)
    (hrow : a.isWritable = false) : Overlong s u := by
  unfold Limits.Holds at ha
  refine ⟨.row, a.row + 1, by omega, hrow, ?_⟩
  change a.row + 1 ≤ (s.limits.rows : Int) ∨ a.row + 1 ≤ (u.limits.rows : Int)
  omega

theorem overlong_clearAt {a : Address} (ha : s.limits.Holds a)
    (h : (s.clearAt a).answer = .error .untold) : Overlong s u := by
  unfold clearAt at h
  dsimp only at h
  split at h
  · obtain ⟨_, hsame, hrow⟩ := untold_conclude h
    cases hsame
    exact overlong_of_holds (.inl ha) hrow
  · cases h

theorem overlong_enter {a : Address} (ha : s.limits.Holds a) {content : String}
    (h : (s.enter a content).answer = .error .untold) : Overlong s u := by
  have hafter := s.afterStage_enter a content
  generalize s.enter a content = r at hafter h
  cases hafter with
  | halted _ => cases h
  | rested _ _ => cases h
  | concluded _ _ _ =>
    obtain ⟨_, hsame, hrow⟩ := untold_conclude h
    cases hsame
    exact overlong_of_holds (.inl ha) hrow

theorem overlong_set {place : Address.Given} {content : Datum}
    (h : (s.set place content).answer = .error .untold) : Overlong s u := by
  unfold set at h
  split at h
  · split at h
    · rename_i fault hplace
      cases h
      cases refuses_of_locate hplace
    · rename_i a hplace
      split at h
      · exact overlong_clearAt (holds_of_locate hplace) h
      · exact overlong_enter (holds_of_locate hplace) h
  · cases h

theorem not_untold_load {items : List (Address.Given × Datum)} :
    (s.load items).answer ≠ .error .untold := by
  have hafter := s.afterLoad_load items
  generalize s.load items = r at hafter ⊢
  cases hafter with
  | refused hplaces =>
    rintro ⟨⟩
    cases refuses_of_locateAll hplaces
  | entered _ _ => exact not_untold_enterAll
  | unloadable _ _ _ _ | halted _ _ _ _ => rintro ⟨⟩

/-- Where the cells can be moved, the sheet gets the new bounds whatever comes of it. -/
theorem limits_of_untold {e : LineEdit} (hs : s.Formed) (hindex : 0 ≤ e.index)
    (hlast : 0 < e.count ∨ e.stop ≤ s.lineCount e.axis)
    (h : (s.restructure e).answer = .error .untold) :
    (s.restructure e).sheet.limits = s.limits.edit e := by
  have hafter := s.afterMove_restructure e
  generalize s.restructure e = r at hafter h ⊢
  cases hafter with
  | refused _ => cases h
  | told _ _ => cases h
  | untold hcontents _ _ =>
    have hedits := edits_enterAll (s := s.emptied e) fun item hitem =>
      inside_movedContents hs hindex hlast hcontents item.1 (mem_of_mem_toList hitem)
    exact hedits.limits formed_of_empty
  | failed _ hfault => exact absurd (hfault.trans h) not_untold_enterAll

theorem isWritable_natAbs (n : Int) : Number.isWritable n.natAbs = Number.isWritable n := by
  unfold Number.isWritable
  rw [Int.natAbs_natCast]

theorem overlong_restructure {e : LineEdit} (hs : s.Formed) (hindex : 0 ≤ e.index)
    (hle : e.index ≤ s.lineCount e.axis) (hlast : 0 < e.count ∨ e.stop ≤ s.lineCount e.axis)
    (h : (s.restructure e).answer = .error .untold) : Overlong s (s.restructure e).sheet := by
  have hlimits := limits_of_untold hs hindex hlast h
  have hlines := lineCount_pos s e.axis
  rcases untold_of_restructure h with hlong | hlong
  · exact ⟨e.axis, e.index, hindex, hlong, .inl hle⟩
  · rw [← isWritable_natAbs] at hlong
    refine ⟨e.axis, e.count.natAbs, by omega, hlong, ?_⟩
    by_cases hinserts : 0 < e.count
    · right
      unfold lineCount at hlines ⊢
      rw [hlimits]
      unfold Limits.edit LineEdit.resize
      cases haxis : e.axis <;> simp only [haxis] at hlines ⊢ <;> omega
    · left
      have hstop := hlast.resolve_left hinserts
      unfold LineEdit.stop at hstop
      omega

theorem MovesLines.overlong {r : Edited (Except Fault (List Diagnostic))} (h : s.MovesLines r)
    (hs : s.Formed) (huntold : r.answer = .error .untold) : Overlong s r.sheet := by
  cases h with
  | refused hrefuses =>
    cases huntold
    cases hrefuses
  | moved hindex hle hlast => exact overlong_restructure hs hindex hle hlast huntold

theorem overlong_of_untold (hs : s.Formed) {call : Call}
    (h : (s.attempt call).answer = some .untold) : Overlong s (s.attempt call).sheet := by
  have hanswer : ∀ {α : Type} {e : Edited (Except Fault α)}, e.toFault.answer = some .untold →
      e.answer = .error .untold := by
    rintro α ⟨sheet, events, answer⟩ h
    cases answer <;> cases h
    rfl
  cases call with
  | set place content => exact overlong_set (hanswer h)
  | clear place =>
    have hset : (s.set place (.text "")).answer = .error .untold := clear_eq_set s place ▸ hanswer h
    exact overlong_set hset
  | load items => exact absurd (hanswer h) not_untold_load
  | recalculateAll =>
    obtain ⟨_, hnone, -⟩ := untold_conclude (hanswer h)
    cases hnone
  | insertLines axis index count => exact (movesLines_insert s axis index count).overlong hs (hanswer h)
  | deleteLines axis index count => exact (movesLines_delete s axis index count).overlong hs (hanswer h)

/-! ## The whole edit -/

/-- A refusal that cannot be told of stays. -/
theorem Halted.not_tellable (h : Halted t u) : ¬u.Tellable := by
  obtain ⟨a, content, -, -, hsilent, rfl⟩ := h
  intro htellable
  obtain ⟨kind, -, hreason, hform⟩ := form?_stage t a content
  obtain ⟨reason, rfl, hlong⟩ := (all_isTellable_eq_false hreason).mp hsilent
  have htold := tellable_iff.mp htellable a content reason (by rw [hform, if_pos rfl])
  rw [limits_stage, hlong] at htold
  cases htold

theorem Halted.overlong (h : Halted t u) (hranges : u.TellsRanges) : Overlong s u := by
  obtain ⟨a, ha, hrow | ⟨hover, hlimit⟩⟩ := h.exists_unwritable
  · exact overlong_of_holds (.inr (by rwa [h.limits])) hrow
  · have hwritable := hranges ⟨a, hover⟩
    rw [h.limits, hlimit] at hwritable
    cases hwritable

namespace Failure

variable {fault : Fault}

theorem unchanged (h : Failure s items u fault) (hrefuses : fault.refuses) : u = s := by
  cases h with
  | refused _ => rfl
  | _ => cases hrefuses

/-- An edit that fails in the middle changes a sheet in which no cell waited for its value and all
refusals could be told of. -/
theorem changed (h : Failure s items u fault) (hinterrupts : fault.interrupts)
    (hknown : ∀ a, ¬s.Unknown a) (htellable : s.Tellable) : u ≠ s := by
  rintro rfl
  cases h with
  | refused hrefuses =>
    rw [Fault.interrupts_of_refuses hrefuses] at hinterrupts
    cases hinterrupts
  | unloadable _ _ _ => cases hinterrupts
  | halted _ _ hhalted => exact hhalted.not_tellable htellable
  | broken _ _ hpass =>
    obtain ⟨a, ha⟩ := (recalculate_eq_error hpass).2
    exact hknown a ha
  | untold _ _ _ => cases hinterrupts

theorem precision_lt {fault : Number.PrecisionFault} (h : Failure s items u (.precision fault))
    (hs : s.Formed) (hbounded : s.Bounded) : Number.maxPrecision < s.limits.precision.val := by
  cases h with
  | refused hrefuses => cases hrefuses
  | @broken base t touched broken hfrom hstaged hpass =>
    by_contra hprecision
    have hbase : base.limits.precision = s.limits.precision := by
      rcases hfrom with rfl | ⟨e, rfl⟩
      · rfl
      · exact Limits.precision_edit
    obtain ⟨v, hv⟩ := exists_recalculate (hstaged.formed (hs.base hfrom))
      (hstaged.bounded (hbounded.base hfrom)) (t.affected touched) (by
        rw [hstaged.limits, hbase]
        omega)
    rw [hv] at hpass
    cases hpass

theorem calm (h : Failure s items u fault) (hs : s.Formed) (hbounded : s.Bounded)
    (hprecision : s.limits.precision.val ≤ Number.maxPrecision) (hlong : ¬Overlong s u)
    (hranges : u.TellsRanges) (htold : fault ≠ .untold) :
    fault.refuses ∨ ∃ found, fault = .unloadable found := by
  cases h with
  | refused hrefuses => exact .inl hrefuses
  | unloadable _ _ _ => exact .inr ⟨_, rfl⟩
  | halted _ _ hhalted => exact absurd (hhalted.overlong hranges) hlong
  | broken hfrom hstaged hpass =>
    have hfailure : Failure s items _ _ := .broken hfrom hstaged hpass
    have hgreat := hfailure.precision_lt hs hbounded
    omega
  | untold _ _ _ => exact absurd rfl htold

end Failure

/-- An edit that fails, after any edits that may have failed. If it is refused, nothing has changed. If a
load has met a content that is no text, nothing has changed just if each of the contents before it would
change nothing if it was put in alone. An edit that fails in the middle has changed something, at least
if no cell waited for its value and all refusals could be told of. One that fails at the end is done, and
its cells are calculated. Where the precision is not too great and the numbers of all lines are short
enough to write, and so is the limit for ranges if one is over it, only the first two can happen. -/
theorem attempt_atomic (limits : Limits) (calls : List Call) (call : Call) (fault : Fault) :
    let s := (new limits).attempts calls
    let r := s.attempt call
    r.answer = some fault →
      (fault.refuses → r.sheet = s) ∧
      (∀ found, fault = .unloadable found → ∃ contents, s.locateAll call.items = .ok contents ∧
        unloadable? contents.toList = some found ∧
          (r.sheet = s ↔ ∀ item ∈ leadingTexts contents.toList,
            ∃ b, (Batch.start s).put item = .ok b ∧ b.sheet = s)) ∧
      (fault.interrupts → (∀ a, ¬s.Unknown a) → s.Tellable → r.sheet ≠ s) ∧
      (fault = .untold → ∃ base touched t, (base = s ∨ ∃ e, base = s.emptied e) ∧
        Staged base touched t ∧ t.recalculate (t.affected touched) = .ok r.sheet) ∧
      (limits.precision.val ≤ Number.maxPrecision →
        (∀ axis, Number.isWritable (s.lineCount axis) ∧ Number.isWritable (r.sheet.lineCount axis)) →
          r.sheet.TellsRanges → fault.refuses ∨ ∃ found, fault = .unloadable found) := by
  intro s r hfault
  obtain ⟨hs, hkept⟩ := formed_attempts limits calls
  have hfailure : Failure s call.items r.sheet fault := failure_of_attempt hs hfault
  refine ⟨hfailure.unchanged, ?_, hfailure.changed, ?_, fun hprecision hlines hranges => ?_⟩
  · rintro found rfl
    generalize hu : r.sheet = u at hfailure ⊢
    cases hfailure with
    | refused hrefuses => cases hrefuses
    | unloadable hplaces hfound hput =>
      exact ⟨_, hplaces, hfound, putAll_unchanged_iff hs rfl (holds_of_leadingTexts hplaces)
        (nodup_leadingTexts _) hput⟩
  · rintro rfl
    generalize r.sheet = u at hfailure ⊢
    cases hfailure with
    | refused hrefuses => cases hrefuses
    | untold hfrom hstaged hpass => exact ⟨_, _, _, hfrom, hstaged, hpass⟩
  · refine hfailure.calm hs (bounded_attempts limits calls) (hkept ▸ hprecision) (not_overlong hlines)
      hranges ?_
    rintro rfl
    exact not_overlong hlines (overlong_of_untold hs hfault)

private def mixed : List (Address.Given × Datum) :=
  [((⟨0, 0⟩ : Address).given, .text "1"), ((⟨0, 1⟩ : Address).given, .int 5)]

private theorem leadingTexts_mixed : ((new standard).locateAll mixed).map (fun contents =>
    leadingTexts contents.toList) = .ok [(⟨0, 0⟩, "1")] := rfl

private theorem put_mixed {b : Batch} (h : (Batch.start (new standard)).put (⟨0, 0⟩, "1") = .ok b) :
    b.sheet ≠ new standard := by
  intro hsame
  have hsize : ((Batch.start (new standard)).put (⟨0, 0⟩, "1")).map (fun b => b.sheet.size) =
      .ok 1 := rfl
  rw [h] at hsize
  change Except.ok b.sheet.size = _ at hsize
  rw [hsame] at hsize
  cases hsize

/-- The text before a number stays. -/
theorem attempt_atomic_load :
    let r := (new standard).attempt (.load
      [((⟨0, 0⟩ : Address).given, .text "1"), ((⟨0, 1⟩ : Address).given, .int 5)])
    r.answer = some (.unloadable (.int 5)) ∧ r.sheet ≠ new standard := by
  have hanswer : ((new standard).attempt (.load mixed)).answer = some (.unloadable (.int 5)) := rfl
  obtain ⟨-, hstaged, -⟩ := attempt_atomic standard [] (.load mixed) (.unloadable (.int 5)) hanswer
  refine ⟨hanswer, fun hsame => ?_⟩
  obtain ⟨contents, hplaces, -, hunchanged⟩ := hstaged _ rfl
  have hleading := leadingTexts_mixed
  rw [show (new standard).locateAll mixed = .ok contents from hplaces] at hleading
  obtain ⟨b, hb, hsheet⟩ := hunchanged.mp hsame (⟨0, 0⟩, "1") (by
    rw [show leadingTexts contents.toList = _ from Except.ok.inj hleading]
    exact List.mem_cons_self)
  exact put_mixed hb hsheet

end Spreadsheet.Sheet
