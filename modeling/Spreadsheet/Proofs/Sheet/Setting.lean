import Spreadsheet.Proofs.Sheet.Consistency

/-! Cells set one after the other. In each stands what was put there last, and no cycle is closed if
formulas name only cells that were set before them. -/
namespace Spreadsheet.Sheet

theorem sheet_of_put {b b' : Batch} {item : Address × String} (hb : b.sheet.Formed)
    (h : b.put item = .ok b' ∨ b.put item = .error b') :
    b'.sheet = if Text.isAllBlank item.2 then b.sheet.vacate item.1
      else (b.sheet.stage item.1 item.2).1 := by
  obtain ⟨a, content⟩ := item
  have hafter := afterPut_put b a content
  dsimp only
  rcases h with h | h <;> rw [h] at hafter
  · cases hafter with
    | emptied hblank _ => rw [if_pos hblank]
    | kept hblank hvacant => rw [if_pos hblank, hb.vacate_eq_self hvacant]
    | staged hcontent _ => rw [if_neg (by simp [hcontent])]
  · cases hafter with
    | halted hcontent _ => rw [if_neg (by simp [hcontent])]

section Entered

variable {s : Sheet} {item : Address × String} {e : Edited (Except Fault (Option Diagnostic))}
  {x y : Address}

/-- To set a cell is to stage its content or to vacate it, but for the values. -/
theorem Entered.alike (h : Entered s item e) (hs : s.Formed) (hin : s.limits.Holds item.1) :
    Alike (if Text.isAllBlank item.2 then s.vacate item.1 else (s.stage item.1 item.2).1) e.sheet := by
  have hformed : (Batch.start s).sheet.Formed := hs
  cases h with
  | ended hb hend _ =>
    have hlike := hend.alike ((staged_of_put hin hb).formed hs)
    rwa [sheet_of_put hformed (.inl hb)] at hlike
  | halted hb hsheet _ =>
    rw [hsheet, sheet_of_put hformed (.inr hb)]
    exact .refl _

/-- What stands in a cell that is set to a content. -/
def standing? (content : String) : Option String :=
  if Text.isAllBlank content then none else some content

theorem Entered.content (h : Entered s item e) (hs : s.Formed) (hin : s.limits.Holds item.1)
    (x : Address) : (e.sheet.form? x).map Prod.fst =
      if x = item.1 then standing? item.2 else (s.form? x).map Prod.fst := by
  rw [← (h.alike hs hin).form?, standing?]
  split
  · rw [form?_vacate]
    split <;> rfl
  · obtain ⟨kind, -, -, hform⟩ := form?_stage s item.1 item.2
    rw [hform]
    split <;> rfl

theorem Entered.reads (h : Entered s item e) (hs : s.Formed) (hin : s.limits.Holds item.1)
    (hx : x ≠ item.1) (hxy : e.sheet.graph.Reads x y) : s.graph.Reads x y := by
  unfold Graph.Reads at hxy ⊢
  rw [← (h.alike hs hin).graph] at hxy
  split at hxy
  · rwa [(vacate_other s hx).2] at hxy
  · rwa [(stage_other s item.2 hx).2] at hxy

/-- A formula is refused for a cycle only if there is a way from a cell that it names to its own. -/
theorem Entered.circular (h : Entered s item e) (hs : s.Formed) (hin : s.limits.Holds item.1)
    (hx : e.sheet.Circular x) :
    s.Circular x ∨ ∃ f y, Formula.parse item.2 = .ok f ∧ f.Names y ∧
      Relation.ReflTransGen s.graph.Reads y item.1 := by
  rw [← (h.alike hs hin).circular_iff] at hx
  split at hx
  · exact .inl (circular_vacate hx)
  · exact (circular_stage hx).imp_right And.right

end Entered

/-! ## Runs -/

/-- What stands in a cell after others were set, and perhaps the cell itself. -/
theorem content_setEach {s : Sheet} (hs : s.Formed) {items : List (Address × String)}
    (hin : ∀ item ∈ items, s.limits.Holds item.1) (x : Address) :
    ((s.run (setEach items)).form? x).map Prod.fst =
      items.foldl (fun found item => if x = item.1 then standing? item.2 else found)
        ((s.form? x).map Prod.fst) := by
  induction items generalizing s with
  | nil => rfl
  | cons item items ih =>
    have hplace := hin item List.mem_cons_self
    have hentered := entered_set hs (locate_given hplace) item.2
    have hedits := edits_set hs item.1.given item.2
    have hlimits : (s.set item.1.given (.text item.2)).sheet.limits = s.limits := hedits.limits hs
    rw [List.foldl_cons, ← hentered.content hs hplace x]
    exact ih (hedits.formed hs) fun later hlater => hlimits ▸ hin later (List.mem_cons_of_mem _ hlater)

theorem mem_of_foldl_standing? {items : List (Address × String)} {x : Address} {content : String}
    {start : Option String}
    (h : items.foldl (fun found item => if x = item.1 then standing? item.2 else found) start =
      some content) : (x, content) ∈ items ∨ start = some content := by
  induction items generalizing start with
  | nil => exact .inr h
  | cons item items ih =>
    rcases ih h with hmem | hstart
    · exact .inl (List.mem_cons_of_mem _ hmem)
    · dsimp only at hstart
      split at hstart
      · rename_i hx
        unfold standing? at hstart
        split at hstart
        · contradiction
        · cases hstart
          exact .inl (List.mem_cons.mpr (.inl (Prod.ext hx rfl)))
      · exact .inr hstart

/-- What stands in a sheet that was empty was put there. -/
theorem mem_of_setEach {limits : Limits} {items : List (Address × String)}
    (hin : ∀ item ∈ items, limits.Holds item.1) {x : Address} {c : Cell}
    (hc : ((new limits).run (setEach items)).cells[x]? = some c) : (x, c.content) ∈ items := by
  have hcontent := content_setEach (s := new limits) formed_of_empty hin x
  rw [form?_of_getElem? hc, Option.map_some] at hcontent
  exact (mem_of_foldl_standing? hcontent.symm).resolve_right (by simp [Sheet.form?, new])

theorem exists_of_setEach {limits : Limits} {items : List (Address × String)}
    (hin : ∀ item ∈ items, limits.Holds item.1) (x : Address) (content : String)
    (h : items.foldl (fun found item => if x = item.1 then standing? item.2 else found) none =
      some content) :
    ∃ c, ((new limits).run (setEach items)).cells[x]? = some c ∧ c.content = content := by
  have hcontent := content_setEach (s := new limits) formed_of_empty hin x
  have hvacant : (new limits).form? x = none := by simp [Sheet.form?, new]
  rw [hvacant, Option.map_none, h] at hcontent
  obtain ⟨form, hform, rfl⟩ := Option.map_eq_some_iff.mp hcontent
  obtain ⟨c, hc, rfl⟩ := Option.map_eq_some_iff.mp hform
  exact ⟨c, hc, rfl⟩

/-- Cells read only what the contents name that were put there. -/
theorem names_of_reads_setEach {limits : Limits} {items : List (Address × String)}
    (hin : ∀ item ∈ items, limits.Holds item.1) {x y : Address}
    (hfree : ¬((new limits).run (setEach items)).Circular x)
    (h : ((new limits).run (setEach items)).graph.Reads x y) :
    ∃ content f, (x, content) ∈ items ∧ Formula.parse content = .ok f ∧ f.Names y := by
  obtain ⟨c, f, hc, hf, hnames⟩ := (formed_run limits _).names_of_reads hfree h
  exact ⟨c.content, f, mem_of_setEach hin hc, hf, hnames⟩

/-- Cells that are set one after the other close no cycle if no formula names its own cell, a cell that
is set after it, or is set in a cell that is read already. -/
theorem not_circular_setEach_of_forward {s : Sheet} (hs : s.Formed) (hfree : ∀ a, ¬s.Circular a)
    {items : List (Address × String)} (hin : ∀ item ∈ items, s.limits.Holds item.1)
    (hunread : ∀ item ∈ items, ∀ f, Formula.parse item.2 = .ok f →
      ¬f.Names item.1 ∧ ∀ x, ¬s.graph.Reads x item.1)
    (hforward : items.Pairwise fun item later => ∀ f g, Formula.parse item.2 = .ok f →
      Formula.parse later.2 = .ok g → ¬f.Names later.1) :
    ∀ a, ¬(s.run (setEach items)).Circular a := by
  induction items generalizing s with
  | nil => exact hfree
  | cons item items ih =>
    obtain ⟨hlater, hforward⟩ := List.pairwise_cons.mp hforward
    have hplace := hin item List.mem_cons_self
    have hentered := entered_set hs (locate_given hplace) item.2
    have hedits := edits_set hs item.1.given item.2
    have ht := hedits.formed hs
    have hlimits : (s.set item.1.given (.text item.2)).sheet.limits = s.limits := hedits.limits hs
    have hfree' : ∀ a, ¬(s.set item.1.given (.text item.2)).sheet.Circular a := by
      intro a ha
      rcases hentered.circular hs hplace ha with ha | ⟨f, y, hf, hnames, hway⟩
      · exact hfree a ha
      · obtain ⟨hself, hreaders⟩ := hunread item List.mem_cons_self f hf
        rcases hway.cases_tail with heq | ⟨x, -, hx⟩
        · exact hself (heq ▸ hnames)
        · exact hreaders x hx
    refine ih (s := (s.set item.1.given (.text item.2)).sheet) ht hfree' (fun item' hmem => ?_)
      (fun item' hmem g hg => ?_) hforward
    · rw [hlimits]
      exact hin item' (List.mem_cons_of_mem _ hmem)
    · obtain ⟨hself, hreaders⟩ := hunread item' (List.mem_cons_of_mem _ hmem) g hg
      refine ⟨hself, fun x hx => ?_⟩
      by_cases hxa : x = item.1
      · obtain ⟨c, f, hc, hparse, hnames⟩ := ht.names_of_reads (hfree' x) hx
        have hcontent := hentered.content hs hplace x
        rw [form?_of_getElem? hc, if_pos hxa, Option.map_some, standing?] at hcontent
        split at hcontent
        · contradiction
        · have hsame : c.content = item.2 := Option.some.inj hcontent
          exact hlater item' hmem f g (hsame ▸ hparse) hg hnames
      · exact hreaders x (hentered.reads hs hplace hxa hx)

/-- Whether a content is a formula that names a cell. -/
def names (content : String) (x : Address) : Bool :=
  (Formula.parse content).toOption.any fun f => decide (f.Names x)

theorem names_of_parse {content : String} {f : Formula} {x : Address} (hf : Formula.parse content = .ok f) :
    names content x = true ↔ f.Names x := by
  unfold names
  rw [hf]
  exact decide_eq_true_iff

/-- Cells that are set in an empty sheet close no cycle if no content names its own cell or one that
a formula is put into later. -/
theorem not_circular_of_names {limits : Limits} {items : List (Address × String)}
    (hin : ∀ item ∈ items, limits.Holds item.1) (hself : ∀ item ∈ items, names item.2 item.1 = false)
    (hforward : items.Pairwise fun item later =>
      Formula.isFormulaText later.2 = true → names item.2 later.1 = false) :
    ∀ a, ¬((new limits).run (setEach items)).Circular a := by
  have hunnamed : ∀ {content f x}, Formula.parse content = .ok f → names content x = false → ¬f.Names x := by
    intro content f x hf hnone hnames
    rw [(names_of_parse hf).mpr hnames] at hnone
    contradiction
  refine not_circular_setEach_of_forward formed_of_empty (by simp [Circular]) hin
    (fun item hitem f hf => ⟨hunnamed hf (hself item hitem), fun x => ?_⟩) ?_
  · simp [Graph.Reads, Graph.readsOf_empty]
  · exact hforward.imp fun hlater f g hf hg => hunnamed hf (hlater (Formula.isFormulaText_of_parse hg))

end Spreadsheet.Sheet
