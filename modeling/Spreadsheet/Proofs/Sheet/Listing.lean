import Spreadsheet.Proofs.Graph.Order
import Spreadsheet.Proofs.Sheet.Atomicity

/-! Which cells a sheet lists as calculated by an edit: the edited ones and those that read them, in the
least order in which none comes before one that it reads. No other cell is changed. -/
namespace Spreadsheet.Sheet

/-- Whether a changed sheet lists just the given cells in the least order, and others than the edited
cells were changed only if they are listed. -/
structure Listed (s : Sheet) (cells edited : Address → Prop) (u : Sheet) : Prop where
  order : u.graph.LeastOrder cells u.recalculated
  kept : ∀ x, x ∉ u.recalculated → ¬edited x →
    u.cells[x]? = s.cells[x]? ∧ u.graph.readsOf x = s.graph.readsOf x

variable {s t u : Sheet} {a x : Address} {content : String} {touched : AddressSet}

theorem Listed.congr {cells cells' edited edited' : Address → Prop} (h : Listed s cells edited u)
    (hcells : ∀ a, cells a ↔ cells' a) (hedited : ∀ a, edited a → edited' a) :
    Listed s cells' edited' u where
  order := h.order.congr hcells
  kept x hx hfree := h.kept x hx fun hmem => hfree (hedited x hmem)

theorem mem_only : x ∈ ({a} : AddressSet) ↔ x = a := by
  change x ∈ (∅ : AddressSet).insert a ↔ x = a
  rw [Std.ExtTreeSet.mem_insert, Std.LawfulEqOrd.compare_eq_iff_eq, eq_comm]
  exact or_iff_left Std.ExtTreeSet.not_mem_empty

theorem mem_cells_of_readsThrough (hs : s.Formed) (h : s.graph.ReadsThrough x a) : x ∈ s.cells := by
  obtain ⟨b, hxb, -⟩ := Relation.TransGen.head'_iff.mp h
  by_contra hvacant
  exact hs.not_reads_of_vacant (form?_eq_none.mpr hvacant) hxb

/-- The list of a pass over all that some touched cells affect. -/
theorem Staged.listed (h : Staged s touched t) (hs : s.Formed)
    (hpass : t.recalculate (t.affected touched) = .ok u) :
    Listed s (fun x => x ∈ touched ∧ x ∈ t.cells ∨ ∃ b ∈ touched, u.graph.ReadsThrough x b)
      (· ∈ touched) u := by
  have ht := h.formed hs
  obtain ⟨hlike, hkept, -⟩ := recalculate_eq_ok ht hpass
  have horder : u.recalculated =
      (t.graph.schedule ((t.affected touched).filter fun a => t.cells.contains a)).order := by
    rw [recalculate_eq] at hpass
    obtain ⟨v, -, rfl⟩ := map_eq_ok.mp hpass
    rfl
  have hmem : ∀ x, x ∈ (t.affected touched).filter (fun a => t.cells.contains a) ↔
      x ∈ touched ∧ x ∈ t.cells ∨ ∃ b ∈ touched, t.graph.ReadsThrough x b := by
    intro x
    rw [mem_occupied, mem_affected ht.sound, Affected, or_and_right]
    refine or_congr_right (and_iff_left_of_imp ?_)
    rintro ⟨b, -, hway⟩
    exact mem_cells_of_readsThrough ht hway
  have hleast := (ht.acyclic.leastOrder_schedule ht.sound
    ((t.affected touched).filter fun a => t.cells.contains a)).congr hmem
  rw [← horder, hlike.graph] at hleast
  refine ⟨hleast, fun x hx hfree => ?_⟩
  have hunaffected : x ∉ t.affected touched := by
    rw [mem_affected ht.sound]
    rintro (hmem | hway)
    · exact hfree hmem
    · exact hx ((hleast.orders.mem x).mpr (.inr (hlike.graph ▸ hway)))
  rw [hkept x hunaffected, ← hlike.graph]
  exact h.other hfree

/-! ## One cell -/

theorem passed_conclude {α : Type} {trigger : Option Address} {cells : AddressSet}
    {before after : List Event} {answer : α}
    (hcalm : ∀ fault, faultOf (t.conclude trigger cells before after answer).answer = some fault →
      fault.interrupts = false) :
    t.recalculate cells = .ok (t.conclude trigger cells before after answer).sheet := by
  rw [conclude_eq] at hcalm ⊢
  split
  · rename_i u hpass
    rw [hpass]
    split <;> rfl
  · rename_i broken hpass
    rw [hpass] at hcalm
    cases hcalm _ rfl

/-- A sheet after content was refused for a cycle. -/
def withCircular (s : Sheet) (a : Address) (content : String) : Sheet :=
  { s with cells := s.cells.insert a ⟨content, .rejected .cycle, .known (.error .cycle)⟩,
           recalculated := [] }

/-- Content that is entered is either calculated, with all that it affects, or refused for a cycle. -/
theorem enter_cases (hs : s.Formed) (ha : s.limits.Holds a) (hcontent : Text.isAllBlank content = false)
    (hcalm : ∀ fault, faultOf (s.enter a content).answer = some fault → fault.interrupts = false) :
    (¬(s.enter a content).sheet.Circular a ∧ ∃ t, Staged s {a} t ∧ a ∈ t.cells ∧
        t.recalculate (t.affected {a}) = .ok (s.enter a content).sheet) ∨
      (s.enter a content).sheet = s.withCircular a content := by
  have hformed := hs.stage ha hcontent
  obtain ⟨kind, -, hreason, hcases⟩ := stage_cases s a content
  have hcycle : (∃ path, (s.stage a content).2 = some (.circular path)) ↔ kind = .rejected .cycle := by
    rw [← Cell.Kind.reason?_eq_some, ← hreason, Option.map_eq_some_iff]
    constructor
    · rintro ⟨path, hpath⟩
      exact ⟨_, hpath, rfl⟩
    · rintro ⟨r, hr, hkind⟩
      cases r <;> cases hkind
      exact ⟨_, hr⟩
  have hafter := s.afterStage_enter a content
  generalize s.enter a content = r at hafter hcalm ⊢
  cases hafter with
  | halted _ => cases hcalm _ rfl
  | rested hpath _ =>
    right
    obtain ⟨targets, hreads, -⟩ | ⟨-, -, hstage⟩ := hcases
    · rw [hcycle.mp ⟨_, hpath⟩] at hreads
      cases hreads
    · rw [hstage]
      rfl
  | concluded _ hfree hwritable =>
    left
    have hpass := passed_conclude hcalm
    obtain ⟨targets, -, -, -, hstage⟩ | ⟨hkind, -⟩ := hcases
    · refine ⟨?_, _, .stage a content (.start ∅) ha hcontent hwritable, ?_, hpass⟩
      · rw [← (recalculate_eq_ok hformed hpass).1.circular_iff, circular_iff, hstage,
          form?_insert rfl, if_pos rfl]
        rintro ⟨text, heq⟩
        cases heq
        obtain ⟨path, hpath⟩ := hcycle.mpr rfl
        exact hfree path hpath
      · rw [hstage]
        exact Std.ExtTreeMap.mem_insert_self
    · obtain ⟨path, hpath⟩ := hcycle.mpr hkind
      exact absurd hpath (hfree path)

theorem listed_enter (hs : s.Formed) (ha : s.limits.Holds a) (hcontent : Text.isAllBlank content = false)
    (hcalm : ∀ fault, faultOf (s.enter a content).answer = some fault → fault.interrupts = false)
    (hfree : ¬(s.enter a content).sheet.Circular a) :
    Listed s (fun x => x = a ∨ (s.enter a content).sheet.graph.ReadsThrough x a) (· = a)
      (s.enter a content).sheet := by
  rcases enter_cases hs ha hcontent hcalm with ⟨-, t, hstaged, hoccupied, hpass⟩ | hpinned
  · refine (hstaged.listed hs hpass).congr (fun x => ?_) fun x => mem_only.mp
    simp only [mem_only]
    grind
  · rw [hpinned] at hfree
    exact absurd ⟨_, Std.ExtTreeMap.getElem?_insert_self, rfl⟩ hfree

/-- A cell that is cleared has the same readers as before. -/
theorem readsThrough_vacate (hs : s.Formed) :
    (s.vacate a).graph.ReadsThrough x a ↔ s.graph.ReadsThrough x a := by
  constructor
  · refine fun hway => Relation.TransGen.mono (fun y z hyz => ?_) _ _ hway
    unfold vacate Graph.clearReads at hyz
    rw [Graph.reads_setReads] at hyz
    split at hyz
    · exact absurd hyz Std.ExtTreeSet.not_mem_empty
    · exact hyz
  · intro hway
    have hstep : ∀ y z, y ≠ a → s.graph.Reads y z → (s.vacate a).graph.Reads y z := by
      intro y z hy hyz
      rwa [Graph.Reads, (vacate_other s hy).2]
    induction hway using Relation.TransGen.head_induction_on with
    | @single y hya =>
      refine .single (hstep _ _ ?_ hya)
      rintro rfl
      exact hs.acyclic y (.single hya)
    | @head y z hyz hza ih =>
      refine .head (hstep _ _ ?_ hyz) ih
      rintro rfl
      exact hs.acyclic y (.head hyz hza)

theorem listed_clearAt (hs : s.Formed) (ha : a ∈ s.cells)
    (hcalm : ∀ fault, faultOf (s.clearAt a).answer = some fault → fault.interrupts = false) :
    Listed s (fun x => (s.clearAt a).sheet.graph.ReadsThrough x a) (· = a) (s.clearAt a).sheet ∧
      ∀ x, (s.clearAt a).sheet.graph.ReadsThrough x a ↔ s.graph.ReadsThrough x a := by
  unfold clearAt at hcalm ⊢
  dsimp only at hcalm ⊢
  rw [if_pos (Std.ExtTreeMap.contains_iff_mem.mpr ha)] at hcalm ⊢
  have hstaged : Staged s {a} (s.vacate a) := .vacate a (.start ∅)
  have hpass := passed_conclude hcalm
  refine ⟨(hstaged.listed hs hpass).congr (fun x => ?_) fun x => mem_only.mp, fun x => ?_⟩
  · have hvacant : a ∉ (s.vacate a).cells := by simp [vacate]
    simp only [mem_only]
    grind
  · rw [← (recalculate_eq_ok (hs.vacate a) hpass).1.graph]
    exact readsThrough_vacate hs

/-! ## Many cells -/

section Batch

variable {b b' : Batch}

theorem mem_of_put {item : Address × String} (h : b.put item = .ok b') :
    (x ∈ b'.touched ↔
        x ∈ b.touched ∨ x = item.1 ∧ (Text.isAllBlank item.2 = false ∨ x ∈ b.sheet.cells)) ∧
      (x ∈ b'.sheet.cells ↔
        x = item.1 ∧ Text.isAllBlank item.2 = false ∨ x ≠ item.1 ∧ x ∈ b.sheet.cells) := by
  obtain ⟨a, content⟩ := item
  have hafter := afterPut_put b a content
  rw [h] at hafter
  dsimp only
  cases hafter with
  | emptied hblank hoccupied =>
    unfold vacate
    dsimp only
    rw [Std.ExtTreeSet.mem_insert, Std.ExtTreeMap.mem_erase]
    simp only [Std.LawfulEqOrd.compare_eq_iff_eq, hblank]
    grind
  | kept hblank hvacant => grind
  | staged hcontent _ =>
    obtain ⟨kind, -, -, hform⟩ := form?_stage b.sheet a content
    have hcells : x ∈ (b.sheet.stage a content).1.cells ↔ x = a ∨ x ∈ b.sheet.cells := by
      rw [← not_iff_not, ← form?_eq_none, hform]
      have hvacant := form?_eq_none (s := b.sheet) (a := x)
      grind
    dsimp only
    rw [hcells, Std.ExtTreeSet.mem_insert, Std.LawfulEqOrd.compare_eq_iff_eq]
    grind

/-- A batch touches the cells for which there is something to see, and those that it empties. -/
theorem mem_of_putAll {items : List (Address × String)} (hnodup : (items.map Prod.fst).Nodup)
    (h : b.putAll items = .ok b') :
    (x ∈ b'.touched ↔ x ∈ b.touched ∨
        ∃ content, (x, content) ∈ items ∧ (Text.isAllBlank content = false ∨ x ∈ b.sheet.cells)) ∧
      (x ∈ b'.sheet.cells ↔ (∃ content, (x, content) ∈ items ∧ Text.isAllBlank content = false) ∨
        x ∉ items.map Prod.fst ∧ x ∈ b.sheet.cells) := by
  induction items generalizing b with
  | nil =>
    cases h
    simp
  | cons item items ih =>
    obtain ⟨hfresh, hnodup⟩ := List.nodup_cons.mp hnodup
    obtain ⟨next, hnext, hrest⟩ := putAll_cons.mp h
    obtain ⟨htouched, hcells⟩ := mem_of_put (x := x) hnext
    obtain ⟨htouched', hcells'⟩ := ih hnodup hrest
    have hnew : x = item.1 → ∀ content, (x, content) ∉ items := by
      rintro rfl content hmem
      exact hfresh (List.mem_map.mpr ⟨_, hmem, rfl⟩)
    rw [htouched', hcells', htouched, hcells]
    obtain ⟨a, content⟩ := item
    simp only [List.mem_cons, List.map_cons, Prod.mk.injEq] at *
    grind

end Batch

theorem listed_enterAll {texts : AddressMap String} (hs : s.Formed)
    (hin : ∀ item ∈ texts.toList, s.limits.Holds item.1)
    (hcalm : ∀ fault, faultOf (s.enterAll texts).answer = some fault → fault.interrupts = false) :
    Listed s
      (fun x => (∃ content, texts[x]? = some content ∧ Text.isAllBlank content = false) ∨
        ∃ b content, texts[b]? = some content ∧ (Text.isAllBlank content = false ∨ b ∈ s.cells) ∧
          (s.enterAll texts).sheet.graph.ReadsThrough x b)
      (· ∈ texts) (s.enterAll texts).sheet := by
  have hafter := afterPuts_enterAll hin
  generalize s.enterAll texts = r at hafter hcalm ⊢
  cases hafter with
  | halted _ _ _ => cases hcalm _ rfl
  | @concluded b hput hstaged =>
    have hmem : ∀ x, (x ∈ b.touched ↔ ∃ content, texts[x]? = some content ∧
          (Text.isAllBlank content = false ∨ x ∈ s.cells)) ∧
        (x ∈ b.sheet.cells ↔ (∃ content, texts[x]? = some content ∧ Text.isAllBlank content = false) ∨
          x ∉ texts ∧ x ∈ s.cells) := by
      intro x
      have hputs := mem_of_putAll (x := x) (nodup_map_fst_toList texts) hput
      simpa [Batch.start, Std.ExtTreeMap.mem_toList_iff_getElem?_eq_some,
        Std.ExtTreeMap.map_fst_toList_eq_keys] using hputs
    refine (hstaged.listed hs (passed_conclude hcalm)).congr (fun x => ?_) fun x hx => ?_
    · simp only [hmem, Std.ExtTreeMap.mem_iff_isSome_getElem?]
      grind
    · obtain ⟨content, hcontent, -⟩ := (hmem x).1.mp hx
      rw [Std.ExtTreeMap.mem_iff_isSome_getElem?, hcontent]
      rfl

/-! ## Edits that fail -/

theorem recalculated_stage (s : Sheet) (a : Address) (content : String) :
    (s.stage a content).1.recalculated = s.recalculated := by
  obtain ⟨kind, -, -, ⟨targets, -, -, -, hstage⟩ | ⟨-, -, hstage⟩⟩ := stage_cases s a content
  · rw [hstage]
  · rw [hstage]

theorem Staged.recalculated (h : Staged s touched t) : t.recalculated = s.recalculated := by
  induction h with
  | start => rfl
  | stage a content _ _ _ _ ih => rw [recalculated_stage, ih]
  | vacate a _ ih => exact ih

/-- A calculation that breaks off lists nothing. -/
theorem recalculated_of_broken {order : List Address} {broken : Broken}
    (h : s.calculateAll order = .error broken) : broken.sheet.recalculated = s.recalculated := by
  have hpostpone : ∀ (order : List Address) (s : Sheet),
      (order.foldl postpone s).recalculated = s.recalculated := by
    intro order
    induction order with
    | nil => exact fun _ => rfl
    | cons a order ih => exact fun s => ih (s.postpone a)
  induction order generalizing s with
  | nil => contradiction
  | cons a rest ih =>
    rw [calculateAll_cons] at h
    split at h
    · rename_i u hu
      rw [ih h]
      rcases calculate_cases s a with ⟨-, heq⟩ | ⟨c, -, ⟨v, -, heq⟩ | ⟨fault, -, heq⟩⟩
      · rw [heq] at hu
        cases hu
        rfl
      · rw [heq] at hu
        cases hu
        rfl
      · rw [heq] at hu
        cases hu
    · cases h
      exact hpostpone rest (s.breakOff a)

/-- An edit that fails leaves the list as it was, unless only the telling failed. -/
theorem Failure.recalculated {items : List (Address.Given × Datum)} {fault : Fault}
    (h : Failure s items u fault) (hs : s.Formed) (htold : fault ≠ .untold) :
    u.recalculated = s.recalculated := by
  have hbase : ∀ {base : Sheet}, (base = s ∨ ∃ e, base = s.emptied e) →
      base.recalculated = s.recalculated := by
    rintro base (rfl | ⟨e, rfl⟩) <;> rfl
  cases h with
  | refused _ => rfl
  | unloadable hplaces _ hput =>
    exact (apart_of_putAll (b := .start s) hs (holds_of_leadingTexts hplaces) hput).1.recalculated
  | halted hfrom hstaged hhalted =>
    obtain ⟨a, content, -, -, -, rfl⟩ := hhalted
    rw [recalculated_stage, hstaged.recalculated, hbase hfrom]
  | broken hfrom hstaged hpass =>
    rw [recalculate_eq] at hpass
    rw [recalculated_of_broken (map_eq_error.mp hpass), hstaged.recalculated, hbase hfrom]
  | untold _ _ _ => exact absurd rfl htold

/-! ## The list after any edits -/

/-- What the list holds after any edits that may have failed, and then one that is not interrupted. After
a cell is set to a content that is not refused for a cycle, these are the cell and all that read it, and
all that read it after it is emptied; after a load, the cells that got contents and all that read these or
the cells that were emptied. They stand in the least order in which none comes before one that it reads,
and nothing else is changed. Content that is refused for a cycle changes its own cell and nothing else.
An edit that fails, except in telling of it, leaves the list as it was; and none is interrupted where the
precision is not too great and the numbers of all lines are short enough to write, and so is the limit for
ranges if one is over it. -/
theorem attempt_listed (limits : Limits) (calls : List Call) :
    let s := (new limits).attempts calls
    (∀ place a content, s.locate place = .ok a → Text.isAllBlank content = false →
      let r := s.attempt (.set place (.text content))
      (∀ fault, r.answer = some fault → fault.interrupts = false) →
        (¬r.sheet.Circular a →
          Listed s (fun x => x = a ∨ r.sheet.graph.ReadsThrough x a) (· = a) r.sheet) ∧
        (r.sheet.Circular a → r.sheet.recalculated = [] ∧ r.sheet.graph = s.graph ∧
          ∀ x : Address, x ≠ a → r.sheet.cells[x]? = s.cells[x]?)) ∧
    (∀ place a, s.locate place = .ok a → a ∈ s.cells →
      let r := s.attempt (.clear place)
      (∀ fault, r.answer = some fault → fault.interrupts = false) →
        Listed s (fun x => r.sheet.graph.ReadsThrough x a) (· = a) r.sheet ∧
          ∀ x, r.sheet.graph.ReadsThrough x a ↔ s.graph.ReadsThrough x a) ∧
    (∀ items texts, s.placeAll items = .ok texts →
      let r := s.attempt (.load (items.map fun (place, content) => (place, .text content)))
      (∀ fault, r.answer = some fault → fault.interrupts = false) →
        Listed s
          (fun x => (∃ content, texts[x]? = some content ∧ Text.isAllBlank content = false) ∨
            ∃ b content, texts[b]? = some content ∧ (Text.isAllBlank content = false ∨ b ∈ s.cells) ∧
              r.sheet.graph.ReadsThrough x b)
          (· ∈ texts) r.sheet) ∧
    (∀ call fault, (s.attempt call).answer = some fault → fault ≠ .untold →
      (s.attempt call).sheet.recalculated = s.recalculated) ∧
    (∀ call, limits.precision.val ≤ Number.maxPrecision →
      (∀ axis, Number.isWritable (s.lineCount axis) ∧
        Number.isWritable ((s.attempt call).sheet.lineCount axis)) →
      (s.attempt call).sheet.TellsRanges →
        ∀ fault, (s.attempt call).answer = some fault → fault.interrupts = false) := by
  intro s
  obtain ⟨hs, hkept⟩ := formed_attempts limits calls
  refine ⟨fun place a content hplace hcontent => ?_, fun place a hplace ha => ?_,
    fun items texts htexts => ?_, fun call fault hfault htold => ?_,
    fun call hprecision hlines hranges fault hfault => ?_⟩
  · have hin := holds_of_locate hplace
    have hset : s.set place (.text content) = s.enter a content := by
      unfold set
      dsimp only
      rw [hplace]
      exact if_neg (Bool.eq_false_iff.mp hcontent)
    unfold attempt
    dsimp only
    rw [hset]
    intro hcalm
    refine ⟨listed_enter hs hin hcontent hcalm, fun hcircular => ?_⟩
    rcases enter_cases hs hin hcontent hcalm with ⟨hfree, -⟩ | hpinned
    · exact absurd hcircular hfree
    · unfold Edited.toFault
      dsimp only
      rw [hpinned]
      refine ⟨rfl, rfl, fun x hx => ?_⟩
      unfold withCircular
      dsimp only
      rw [Std.ExtTreeMap.getElem?_insert, if_neg]
      rwa [Std.LawfulEqOrd.compare_eq_iff_eq, eq_comm]
  · have hclear : s.clear place = s.clearAt a := by
      unfold clear
      rw [hplace]
    unfold attempt
    dsimp only
    rw [hclear]
    exact listed_clearAt hs ha
  · unfold attempt
    dsimp only
    rw [load_texts, htexts]
    exact listed_enterAll hs (holds_of_placeAll htexts)
  · exact (failure_of_attempt hs hfault).recalculated hs htold
  · by_cases htold : fault = .untold
    · rw [htold]
      rfl
    · rcases (failure_of_attempt hs hfault).calm hs (bounded_attempts limits calls)
        (hkept ▸ hprecision) (not_overlong hlines) hranges htold with hrefuses | ⟨found, rfl⟩
      · exact Fault.interrupts_of_refuses hrefuses
      · rfl

private def named : List (Address × String) := [(⟨0, 0⟩, "=B1"), (⟨0, 1⟩, "2")]

private theorem holds_named : ∀ item ∈ named, standard.Holds item.1 := by
  simp [named, Limits.Holds, standard]

private theorem parse_namedFirst : Formula.parse "=B1" = .ok (.cell ⟨0, 1⟩) :=
  eq_ok_of_toOption (by decide +kernel)

private theorem not_isFormulaText_namedSecond : ¬Formula.isFormulaText "2" := by decide

private theorem parse_named {x : Address} {content : String} {f : Formula} (h : (x, content) ∈ named)
    (hf : Formula.parse content = .ok f) : x = ⟨0, 0⟩ ∧ f = .cell ⟨0, 1⟩ := by
  simp only [named, List.mem_cons, Prod.mk.injEq, List.not_mem_nil, or_false] at h
  rcases h with ⟨rfl, rfl⟩ | ⟨rfl, rfl⟩
  · rw [parse_namedFirst] at hf
    cases hf
    exact ⟨rfl, rfl⟩
  · exact absurd (Formula.isFormulaText_of_parse hf) not_isFormulaText_namedSecond

private theorem not_circular_named : ∀ a, ¬((new standard).run (setEach named)).Circular a :=
  not_circular_of_names holds_named (by decide +kernel) (by decide +kernel)

private theorem reads_named {x y : Address} :
    ((new standard).run (setEach named)).graph.Reads x y ↔ x = ⟨0, 0⟩ ∧ y = ⟨0, 1⟩ := by
  constructor
  · intro hxy
    obtain ⟨content, f, hmem, hf, hnames⟩ :=
      names_of_reads_setEach holds_named (not_circular_named x) hxy
    obtain ⟨rfl, rfl⟩ := parse_named hmem hf
    exact ⟨rfl, Formula.names_cell.mp hnames⟩
  · rintro ⟨rfl, rfl⟩
    have hformed := formed_run standard (setEach named)
    obtain ⟨c, hc, hcontent⟩ := exists_of_setEach holds_named ⟨0, 0⟩ "=B1" (by decide)
    have hform := form?_of_getElem? hc
    have hkind := ne_cycle_of_form? (not_circular_named _) hform
    rw [hcontent] at hform
    have hcell : c.kind = .formula (.cell ⟨0, 1⟩) := (hformed.fits _ _ hform).unique
      ⟨Formula.isFormulaText_of_parse parse_namedFirst, parse_namedFirst, rfl⟩ hkind (by simp)
    refine (hformed.reads_iff hform hkind).mpr ⟨_, hcell, ?_, Formula.names_cell.mpr rfl⟩
    have hlimits : ((new standard).run (setEach named)).limits = standard :=
      limits_setEach formed_of_empty named
    unfold bounds
    rw [hlimits]
    decide

private theorem readsThrough_named {x : Address} :
    ((new standard).run (setEach named)).graph.ReadsThrough x ⟨0, 1⟩ ↔ x = ⟨0, 0⟩ := by
  constructor
  · intro hway
    obtain ⟨b, hxb, -⟩ := Relation.TransGen.head'_iff.mp hway
    exact (reads_named.mp hxb).1
  · rintro rfl
    exact .single (reads_named.mpr ⟨rfl, rfl⟩)

/-- The cell that is set comes before the one that names it. -/
theorem attempt_listed_named :
    let s := (new standard).attempts [.set (⟨0, 0⟩ : Address).given (.text "=B1")]
    let r := s.attempt (.set (⟨0, 1⟩ : Address).given (.text "2"))
    r.sheet.recalculated = [⟨0, 1⟩, ⟨0, 0⟩] := by
  intro s r
  have hranges : (new standard).limits.TellsRanges named := fun _ => by decide +kernel
  have hcalm := (uninterrupted_setEach formed_of_empty (bounded_new _) (by decide +kernel)
    (by decide +kernel) hranges).2.1
  have hlimits : s.limits = standard := limits_setEach formed_of_empty [(⟨0, 0⟩, "=B1")]
  have hplace : s.locate (⟨0, 1⟩ : Address).given = .ok ⟨0, 1⟩ :=
    locate_given (hlimits ▸ holds_named (⟨0, 1⟩, "2") (by simp [named]))
  have hlisted := ((attempt_listed standard [.set (⟨0, 0⟩ : Address).given (.text "=B1")]).1 _ _ "2"
    hplace (by decide +kernel) hcalm).1 (not_circular_named _)
  have horders := hlisted.order.orders
  have hperm : r.sheet.recalculated.Perm [⟨0, 1⟩, ⟨0, 0⟩] := by
    refine (List.perm_ext_iff_of_nodup horders.nodup (by decide)).mpr fun x => ?_
    rw [horders.mem, List.mem_pair]
    exact or_congr_right readsThrough_named
  refine hperm.eq_of_pairwise (fun x y hx hy hxy hyx => ?_) horders.forward ?_
  · have hx := hperm.mem_iff.mp hx
    rw [List.mem_pair] at hx hy
    rcases hx with rfl | rfl <;> rcases hy with rfl | rfl
    · rfl
    · exact absurd (reads_named.mpr ⟨rfl, rfl⟩) hyx
    · exact absurd (reads_named.mpr ⟨rfl, rfl⟩) hxy
    · rfl
  · exact List.pairwise_pair.mpr fun hread => absurd (reads_named.mp hread).1 (by decide)

end Spreadsheet.Sheet
