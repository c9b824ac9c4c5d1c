import Spreadsheet.Proofs.Sheet.Ascending
import Spreadsheet.Proofs.Sheet.Insertion

/-! Formulas refused for a cycle, under insertions of rows and columns. An insertion enters all cells anew
in ascending order and forgets the edges that have led to a refusal, so that of the cells on a cycle the
last one is refused then, whichever was refused before. -/
namespace Spreadsheet

/-- Rows and columns that are counted from zero leave room for finitely many steps back only. -/
theorem Address.wellFounded_precedes :
    WellFounded fun a b : Address => a.Natural ∧ a.Precedes b := by
  have hlex := (Prod.lex Nat.lt_wfRel Nat.lt_wfRel).wf
  refine Subrelation.wf ?_ (InvImage.wf (fun a : Address => (a.row.toNat, a.col.toNat)) hlex)
  rintro a b ⟨hnat, hrow | ⟨hrow, hcol⟩⟩
  · unfold Natural at hnat
    exact .left _ _ (show a.row.toNat < b.row.toNat by omega)
  · unfold Natural at hnat
    change Prod.Lex _ _ (a.row.toNat, a.col.toNat) (b.row.toNat, b.col.toNat)
    rw [hrow]
    exact .right _ (show a.col.toNat < b.col.toNat by omega)

namespace Sheet

open Relation (ReflTransGen)

/-- Whether an edit of lines leaves all cells, and of each formula a text that can be taken for what it
was taken for. -/
structure Respells (s : Sheet) (e : LineEdit) : Prop where
  left : ∀ a : Address, ∃ b, a.shift? e = some b
  kept : ∀ a content kind f, s.form? a = some (content, kind) → Formula.parse content = .ok f → f.Kept e
  sized : ∀ a f, s.Spells a f → (f.shift e).oversized? s.limits.rangeCells = none

/-- A sheet in which the contents of another one stand, rewritten, at the places where an edit of lines
takes them. -/
structure Rewritten (s u : Sheet) (e : LineEdit) : Prop where
  formed : u.Formed
  limits : u.limits = s.limits.edit e
  content : ∀ b text, (u.form? b).map Prod.fst = some text ↔
    ∃ (a : Address) (c : Cell), s.cells[a]? = some c ∧ a.shift? e = some b ∧
      Formula.shiftText e c.content = .ok text

variable {s u : Sheet} {e : LineEdit} {a b x y : Address} {f g : Formula}

theorem Formed.natural_of_reads (hs : s.Formed) (hab : s.graph.Reads a b) : a.Natural := by
  cases hform : s.form? a with
  | none => exact absurd hab (hs.not_reads_of_vacant hform)
  | some form => exact (holds_iff.mp (hs.inside a form hform)).1

theorem Respells.fits (h : s.Respells e) (hs : s.Formed) (he : s.Admits e) {content : String}
    {kind : Cell.Kind} (hform : s.form? a = some (content, kind)) :
    ∃ (kind' : Cell.Kind) (text : String), kind' ≠ .rejected .cycle ∧ kind'.Fits s.limits content ∧
      Formula.shiftText e content = .ok text ∧ (kind'.shift e).Fits (s.limits.edit e) text := by
  have hfits : ∃ kind' : Cell.Kind, kind' ≠ .rejected .cycle ∧ kind'.Fits s.limits content := by
    by_cases hcircular : s.Circular a
    · obtain ⟨f, content', kind', hform', hf⟩ := hs.exists_spells hcircular
      rw [hform] at hform'
      cases hform'
      exact ⟨_, by simp, hf⟩
    · exact ⟨kind, ne_cycle_of_form? hcircular hform, hs.fits a _ hform⟩
  obtain ⟨kind', hkind', hfits'⟩ := hfits
  obtain ⟨text, htext, hshift, -⟩ := hfits'.shift hkind' he.index_nonneg
    (fun f hf => h.kept a content kind f hform hf)
    (by rintro f rfl; exact h.sized a f ⟨content, kind, hform, hfits'⟩)
  exact ⟨kind', text, hkind', hfits', htext, hshift⟩

namespace Rewritten

theorem content_of_shift? (h : Rewritten s u e) (hab : a.shift? e = some b) {text : String} :
    (u.form? b).map Prod.fst = some text ↔
      ∃ content kind, s.form? a = some (content, kind) ∧ Formula.shiftText e content = .ok text := by
  rw [h.content]
  constructor
  · rintro ⟨a', c, hc, hab', htext⟩
    obtain rfl := Address.shift?_injective hab hab'
    exact ⟨c.content, c.kind, form?_of_getElem? hc, htext⟩
  · rintro ⟨content, kind, hform, htext⟩
    obtain ⟨c, hc, hsame⟩ := Option.map_eq_some_iff.mp hform
    cases hsame
    exact ⟨a, c, hc, hab, htext⟩

/-- Where a cell ends up its formula is spelled, carried along. -/
theorem spells_iff (h : Rewritten s u e) (hr : s.Respells e) (hs : s.Formed) (he : s.Admits e)
    (hab : a.shift? e = some b) : u.Spells b g ↔ ∃ f, s.Spells a f ∧ f.shift e = g := by
  constructor
  · rintro ⟨text, taken, hform, hfits⟩
    obtain ⟨content, kind, ha, htext⟩ := (h.content_of_shift? hab).mp (by rw [hform]; rfl)
    obtain ⟨kind', text', hkind', hfits', htext', hshift⟩ := hr.fits hs he ha
    rw [htext] at htext'
    cases htext'
    rw [h.limits] at hfits
    have hsame := hshift.unique hfits (Cell.Kind.shift_ne_cycle hkind') (by simp)
    cases kind' with
    | formula f => exact ⟨f, ⟨content, kind, ha, hfits'⟩, Cell.Kind.formula.inj hsame⟩
    | constant => contradiction
    | rejected reason => contradiction
  · rintro ⟨f, ⟨content, kind, ha, hfits⟩, rfl⟩
    obtain ⟨kind', text, hkind', hfits', htext, hshift⟩ := hr.fits hs he ha
    obtain rfl := hfits.unique hfits' (by simp) hkind'
    obtain ⟨⟨_, taken⟩, hform, rfl⟩ :=
      Option.map_eq_some_iff.mp ((h.content_of_shift? hab).mpr ⟨content, kind, ha, htext⟩)
    exact ⟨_, taken, hform, h.limits ▸ hshift⟩

theorem contains_iff (h : Rewritten s u e) (he : s.Admits e) (hxy : x.shift? e = some y) :
    u.bounds.contains y ↔ s.bounds.contains x := by
  rw [emptied_bounds h.limits]
  exact he.contains_iff hxy

/-- A cell that was not refused for a cycle and is not now reads what it read. -/
theorem reads_iff (h : Rewritten s u e) (hr : s.Respells e) (hs : s.Formed) (he : s.Admits e)
    (ha : ¬s.Circular a) (hb : ¬u.Circular b) (hab : a.shift? e = some b)
    (hxy : x.shift? e = some y) : u.graph.Reads b y ↔ s.graph.Reads a x := by
  rw [h.formed.reads_iff_spells hb, hs.reads_iff_spells ha]
  constructor
  · rintro ⟨g, hg, hin, hnames⟩
    obtain ⟨f, hf, rfl⟩ := (h.spells_iff hr hs he hab).mp hg
    exact ⟨f, hf, (h.contains_iff he hxy).mp hin, (Formula.names_shift_iff hxy).mp hnames⟩
  · rintro ⟨f, hf, hin, hnames⟩
    exact ⟨_, (h.spells_iff hr hs he hab).mpr ⟨f, hf, rfl⟩, (h.contains_iff he hxy).mpr hin,
      (Formula.names_shift_iff hxy).mpr hnames⟩

theorem exists_shift?_of_reads (h : Rewritten s u e) (hs : s.Formed) (hby : u.graph.Reads b y) :
    ∃ a : Address, a.Natural ∧ a.shift? e = some b := by
  cases hform : u.form? b with
  | none => exact absurd hby (h.formed.not_reads_of_vacant hform)
  | some form =>
    obtain ⟨a, c, hc, hab, -⟩ := (h.content b form.1).mp (by rw [hform]; rfl)
    exact ⟨a, (holds_iff.mp (hs.inside a _ (form?_of_getElem? hc))).1, hab⟩

/-- Where the same cells before one are refused for a cycle, a cycle is closed behind it just if one was
closed behind it where it came from. -/
theorem closedBefore_iff (h : Rewritten s u e) (hr : s.Respells e) (hs : s.Formed) (he : s.Admits e)
    (hab : a.shift? e = some b)
    (hsame : ∀ c d : Address, c.Natural → c.Precedes a → c.shift? e = some d →
      (u.Circular d ↔ s.Circular c)) :
    u.ClosedBefore b ↔ s.ClosedBefore a := by
  have hedge : ∀ {c d x y : Address}, c.Natural → c.shift? e = some d → x.shift? e = some y →
      (u.ReadsBefore b d y ↔ s.ReadsBefore a c x) := by
    intro c d x y hnat hcd hxy
    unfold ReadsBefore
    rw [Address.shift?_precedes_iff hcd hab]
    refine and_congr_right fun hbefore => ?_
    rw [hsame c d hnat hbefore hcd]
    exact and_congr_right fun hfree =>
      h.reads_iff hr hs he hfree (fun hd => hfree ((hsame c d hnat hbefore hcd).mp hd)) hcd hxy
  constructor
  · rintro ⟨g, y, hg, hin, hnames, hway⟩
    have hback : ∃ x : Address, x.shift? e = some y ∧ ReflTransGen (s.ReadsBefore a) x a := by
      clear hnames hin
      induction hway using ReflTransGen.head_induction_on with
      | refl => exact ⟨a, hab, .refl⟩
      | @head d z hstep _ ih =>
        obtain ⟨x, hxz, hback⟩ := ih
        obtain ⟨c, hnat, hcd⟩ := h.exists_shift?_of_reads hs hstep.2.2
        exact ⟨c, hcd, .head ((hedge hnat hcd hxz).mp hstep) hback⟩
    obtain ⟨x, hxy, hback⟩ := hback
    obtain ⟨f, hf, rfl⟩ := (h.spells_iff hr hs he hab).mp hg
    exact ⟨f, x, hf, (h.contains_iff he hxy).mp hin, (Formula.names_shift_iff hxy).mp hnames, hback⟩
  · rintro ⟨f, x, hf, hin, hnames, hway⟩
    have hforth : ∀ y, x.shift? e = some y → ReflTransGen (u.ReadsBefore b) y b := by
      clear hnames hin
      induction hway using ReflTransGen.head_induction_on with
      | refl =>
        intro y hy
        rw [hab] at hy
        cases hy
        exact .refl
      | @head c z hstep _ ih =>
        intro d hcd
        obtain ⟨y, hzy⟩ := hr.left z
        obtain ⟨-, -, hread⟩ := id hstep
        exact .head ((hedge (hs.natural_of_reads hread) hcd hzy).mpr hstep) (ih y hzy)
    obtain ⟨y, hxy⟩ := hr.left x
    exact ⟨_, y, (h.spells_iff hr hs he hab).mpr ⟨f, hf, rfl⟩, (h.contains_iff he hxy).mpr hin,
      (Formula.names_shift_iff hxy).mpr hnames, hforth y hxy⟩

/-- Where the last cell of every cycle was refused, the same cells are refused again: by induction in the
order in which they are entered. -/
theorem circular_iff_of_closedBefore (h : Rewritten s u e) (hr : s.Respells e) (hs : s.Formed)
    (he : s.Admits e) (hasc : ∀ b, u.Circular b ↔ u.ClosedBefore b)
    (hclosed : ∀ a, s.Circular a → s.ClosedBefore a) (a : Address) :
    ∀ b, a.shift? e = some b → (u.Circular b ↔ s.Circular a) := by
  induction a using Address.wellFounded_precedes.induction with
  | h a ih =>
    intro b hab
    rw [hasc, h.closedBefore_iff hr hs he hab fun c d hnat hbefore hcd => ih c ⟨hnat, hbefore⟩ d hcd]
    exact ⟨hs.circular_of_closedBefore, hclosed a⟩

/-- The refused cells stay the same just if the last cell of every cycle was the refused one. -/
theorem pinned_iff (h : Rewritten s u e) (hr : s.Respells e) (hs : s.Formed) (he : s.Admits e)
    (hasc : ∀ b, u.Circular b ↔ u.ClosedBefore b) :
    (∀ b, u.Circular b ↔ ∃ a, s.Circular a ∧ a.shift? e = some b) ↔
      ∀ a, s.Circular a → s.ClosedBefore a := by
  constructor
  · intro hpinned a ha
    obtain ⟨b, hab⟩ := hr.left a
    have hsame : ∀ {c d : Address}, c.shift? e = some d → (u.Circular d ↔ s.Circular c) := by
      intro c d hcd
      rw [hpinned]
      constructor
      · rintro ⟨c', hc', hcd'⟩
        exact Address.shift?_injective hcd' hcd ▸ hc'
      · exact fun hc => ⟨c, hc, hcd⟩
    rw [← h.closedBefore_iff hr hs he hab fun c d _ _ hcd => hsame hcd, ← hasc, hsame hab]
    exact ha
  · intro hclosed b
    have hsame := h.circular_iff_of_closedBefore hr hs he hasc hclosed
    constructor
    · intro hb
      obtain ⟨text, hform⟩ := circular_iff.mp hb
      obtain ⟨a, -, -, hab, -⟩ := (h.content b text).mp (by rw [hform]; rfl)
      exact ⟨a, (hsame a b hab).mp hb, hab⟩
    · rintro ⟨a, ha, hab⟩
      exact (hsame a b hab).mpr ha

end Rewritten

/-! ## The whole edit -/

/-- All cells are entered anew in ascending order, unless one of them is refused in a row whose number is
too long to tell of it, or for a range whose limit is. -/
theorem Respells.restructure_cases (hr : s.Respells e) (hs : s.Formed) (he : s.Admits e) :
    ((s.restructure e).answer = .error .halted ∧
        ∃ (a b : Address) (c : Cell), s.cells[a]? = some c ∧ c.isFormula ∧ a.shift? e = some b ∧
          (b.isWritable = false ∨
            c.rejection? = some .invalidRange ∧ Number.isWritable s.limits.rangeCells = false)) ∨
      ∃ batch, Ascending [] batch ∧ Reentered batch (s.restructure e) ∧ Rewritten s batch.sheet e := by
  obtain ⟨contents, hcontents⟩ := exists_movedContents (s := s) (e := e) fun a c hc _ => by
    obtain ⟨-, text, -, -, htext, -⟩ := hr.fits hs he (form?_of_getElem? hc)
    exact ⟨text, htext⟩
  have hin := inside_movedContents hs he.index_nonneg he.last hcontents
  have hvisible := visible_movedContents hs hcontents
  have hvacant : ∀ x, (s.emptied e).form? x = none := fun x => by simp [emptied, Sheet.form?]
  -- of no cell it has to be foreseen what it is taken for
  have hforeseen : Foreseen (s.emptied e) contents (fun _ => False) (fun _ _ => False) :=
    ⟨hin, hvisible, fun _ => False.elim, fun _ _ => False.elim⟩
  rcases Sheet.restructure_cases hcontents hforeseen with ⟨hhalted, huntold⟩ | ⟨batch, hput, hb, hend⟩
  · refine .inl ⟨hhalted, exists_unwritable_of_untellable hs hcontents ?_ huntold⟩
    intro a c text hc htext hlarge
    obtain ⟨kind, text', hkind, hfits, htext', hshift⟩ := hr.fits hs he (form?_of_getElem? hc)
    cases htext.symm.trans htext'
    have hsame := hshift.unique hlarge (Cell.Kind.shift_ne_cycle hkind) (by simp)
    cases kind with
    | rejected reason => exact hsame ▸ hfits
    | _ => cases hsame
  · refine .inr ⟨batch, ascending_of_putAll formed_of_empty hvacant hin hvisible hput, hend,
      hb.staged.formed formed_of_empty, hb.staged.limits, fun b text => ?_⟩
    rw [hb.content, if_neg (by simp), getElem?_movedContents hcontents]

/-- The numbers of an insertion are no longer than those of the lines that there are afterwards. -/
theorem isWritable_of_insertion {axis : Axis} {index count : Int} (hindex : 0 ≤ index)
    (hlast : index ≤ s.lineCount axis) (hcount : 1 ≤ count)
    (hcols : axis = .col → s.lineCount axis + count ≤ mostColumns)
    (hrows : Number.isWritable (s.limits.edit ⟨axis, index, count⟩).rows) :
    Number.isWritable index ∧ Number.isWritable count := by
  have hlines := lineCount_pos s axis
  cases axis with
  | row =>
    change 0 < (s.limits.rows : Int) at hlines
    change index ≤ (s.limits.rows : Int) at hlast
    have hall : ((s.limits.edit ⟨.row, index, count⟩).rows : Int) =
      max 1 ((s.limits.rows : Int) + count) := rfl
    exact ⟨isWritable_of_le hindex (by omega) hrows, isWritable_of_le (by omega) (by omega) hrows⟩
  | col =>
    have hmost : Number.isWritable mostColumns := Number.isWritable_of_lt_maxExactInt (by decide)
    have hwide := hcols rfl
    exact ⟨isWritable_of_le hindex (by omega) hmost, isWritable_of_le (by omega) (by omega) hmost⟩

theorem Respells.exists_found (hr : s.Respells e) (hs : s.Formed) (hbounded : s.Bounded)
    (he : s.Admits e) (hprecision : s.limits.precision.val ≤ Number.maxPrecision)
    (hrows : Number.isWritable (s.limits.edit e).rows) (hranges : s.TellsRanges)
    (hindex : Number.isWritable e.index) (hcount : Number.isWritable e.count) :
    ∃ found, (s.restructure e).answer = .ok found := by
  rcases hr.restructure_cases hs he with
    ⟨-, a, b, c, hc, -, hab, hrow | ⟨hrange, hlimit⟩⟩ | ⟨batch, -, hend, -⟩
  · have hin := holds_of_shift? (hs.inside a _ (form?_of_getElem? hc)) he.index_nonneg he.last hab
    rw [isWritable_of_holds hin hrows] at hrow
    cases hrow
  · rw [hranges ⟨a, c, hc, hrange⟩] at hlimit
    cases hlimit
  · cases hend with
    | passed _ hanswer =>
      refine ⟨_, hanswer.resolve_right fun huntold => ?_⟩
      rcases untold_of_restructure huntold with hlong | hlong
      · exact absurd hindex (Bool.eq_false_iff.mp hlong)
      · exact absurd hcount (Bool.eq_false_iff.mp hlong)
    | broken _ _ hanswer =>
      cases (halted_of_restructure hs hbounded he.index_nonneg he.last hprecision
        (congrArg faultOf hanswer) rfl).1

/-- An insertion of lines, after any history, if no range becomes too large and all moved references
still have a text. Afterwards just those formulas are refused for a cycle that accepted cells before them
close, and just they are told of. They are those that were refused before, at their new places, exactly
if each of these was closed by accepted cells before it. The insertion stops on the way only at a formula
that is refused in a row whose number is too long to tell of it, or for a range whose limit is. It does not
fail as long as the precision is not too great and the numbers of all rows are short enough to write, and
so is the limit for ranges if one was over it. -/
theorem insertLines_circular (limits : Limits) (history : List Edit) (axis : Axis)
    (index count : Int) :
    let s := (new limits).run history
    let e : LineEdit := ⟨axis, index, count⟩
    let r := s.insertLines axis index count
    0 ≤ index → index ≤ s.lineCount axis → 1 ≤ count →
      (axis = .col → s.lineCount axis + count ≤ mostColumns) →
      (∀ (a : Address) (c : Cell) f, s.cells[a]? = some c → Formula.parse c.content = .ok f →
        f.oversized? s.limits.rangeCells = none → (f.shift e).oversized? s.limits.rangeCells = none) →
      (∀ (a : Address) (c : Cell) f, s.cells[a]? = some c → Formula.parse c.content = .ok f →
        ∀ ref ∈ (f.shift e).references, ¬ref.IsFar ∧ ref.isWritable) →
      (r.answer ≠ .error .halted →
        (∀ b, r.sheet.Circular b ↔ r.sheet.ClosedBefore b) ∧
        ((∀ b, r.sheet.Circular b ↔ ∃ a, s.Circular a ∧ a.shift? e = some b) ↔
          ∀ a, s.Circular a → s.ClosedBefore a)) ∧
      (∀ found, r.answer = .ok found → ∀ b,
        (∃ d ∈ found, d.address = b ∧ d.rejection.kind = .cycle) ↔ r.sheet.Circular b) ∧
      (r.answer = .error .halted →
        ∃ (a b : Address) (c : Cell), s.cells[a]? = some c ∧ c.isFormula ∧ a.shift? e = some b ∧
          (b.isWritable = false ∨
            c.rejection? = some .invalidRange ∧ Number.isWritable s.limits.rangeCells = false)) ∧
      (limits.precision.val ≤ Number.maxPrecision → Number.isWritable (s.limits.edit e).rows →
        s.TellsRanges → ∃ found, r.answer = .ok found) := by
  intro s e r hindex hlast hcount hcols hsized hspelled
  have hs : s.Formed := formed_run limits history
  have he : s.Admits e := admits_insertion hindex hlast hcount
  have hr : r = s.restructure e := insertLines_eq hindex hlast hcount hcols
  have hleft := Address.exists_shift?_eq_some (e := e) (show 0 ≤ count by omega)
  have hrespells : s.Respells e := by
    refine ⟨hleft, fun a content kind f hform hparse => ⟨fun x _ => hleft x, fun _ => ?_⟩, ?_⟩
    · obtain ⟨c, hc, hsame⟩ := Option.map_eq_some_iff.mp hform
      cases hsame
      exact Formula.spellable_shift hindex hparse (hspelled a c f hc hparse)
    · rintro a f ⟨content, kind, hform, -, hparse, hsize⟩
      obtain ⟨c, hc, hsame⟩ := Option.map_eq_some_iff.mp hform
      cases hsame
      exact hsized a c f hc hparse hsize
  have hcalm : limits.precision.val ≤ Number.maxPrecision → Number.isWritable (s.limits.edit e).rows →
      s.TellsRanges → ∃ found, r.answer = .ok found := by
    intro hprecision hrows hranges
    obtain ⟨hindex₀, hcount₀⟩ := isWritable_of_insertion hindex hlast hcount hcols hrows
    rw [hr]
    exact hrespells.exists_found hs (bounded_run limits history) he
      (precision_run limits history ▸ hprecision) hrows hranges hindex₀ hcount₀
  rw [hr] at hcalm ⊢
  rcases hrespells.restructure_cases hs he with ⟨hhalted, huntold⟩ | ⟨batch, hb, hend, hrewritten⟩
  · refine ⟨fun h => absurd hhalted h, fun found hfound => ?_, fun _ => huntold, hcalm⟩
    rw [hhalted] at hfound
    cases hfound
  · have hlike := hend.alike hb.formed
    have hcircular : ∀ b, (s.restructure e).sheet.Circular b ↔ batch.sheet.Circular b :=
      fun b => hlike.symm.circular_iff
    refine ⟨fun _ => ⟨fun b => ?_, ?_⟩, fun found hfound b => ?_, fun hhalted => ?_, hcalm⟩
    · rw [hcircular, hb.circular]
      exact ⟨hlike.closedBefore, hlike.symm.closedBefore⟩
    · simp only [hcircular]
      exact hrewritten.pinned_iff hrespells hs he hb.circular
    · rw [hcircular, ← hb.diagnostics, hend.found hfound]
      simp only [Batch.found, List.mem_reverse]
    · exact absurd hhalted hend.not_halted

private def crossed : List (Address × String) := [(⟨0, 1⟩, "=A1"), (⟨0, 0⟩, "=B1")]

private theorem holds_crossed : ∀ item ∈ crossed, standard.Holds item.1 := by
  simp [crossed, Limits.Holds, standard]

private theorem parse_crossedFirst : Formula.parse "=A1" = .ok (.cell ⟨0, 0⟩) :=
  eq_ok_of_toOption (by decide +kernel)

private theorem parse_crossedSecond : Formula.parse "=B1" = .ok (.cell ⟨0, 1⟩) :=
  eq_ok_of_toOption (by decide +kernel)

private theorem parse_crossed {content : String} (hmem : (a, content) ∈ crossed)
    (hf : Formula.parse content = .ok f) :
    a = ⟨0, 1⟩ ∧ f = .cell ⟨0, 0⟩ ∨ a = ⟨0, 0⟩ ∧ f = .cell ⟨0, 1⟩ := by
  simp only [crossed, List.mem_cons, Prod.mk.injEq, List.not_mem_nil, or_false] at hmem
  rcases hmem with ⟨rfl, rfl⟩ | ⟨rfl, rfl⟩
  · rw [parse_crossedFirst] at hf
    exact .inl ⟨rfl, (Except.ok.inj hf).symm⟩
  · rw [parse_crossedSecond] at hf
    exact .inr ⟨rfl, (Except.ok.inj hf).symm⟩

private theorem spells_crossed {items : List (Address × String)}
    (hitems : ∀ item ∈ items, item ∈ crossed) {content : String} {x : Address}
    (hparse : Formula.parse content = .ok (.cell x))
    (h : items.foldl (fun found item => if a = item.1 then standing? item.2 else found) none =
      some content) : ((new standard).run (setEach items)).Spells a (.cell x) := by
  obtain ⟨c, hc, hcontent⟩ :=
    exists_of_setEach (fun item hitem => holds_crossed item (hitems item hitem)) a content h
  exact ⟨_, _, form?_of_getElem? hc, Formula.isFormulaText_of_parse (hcontent ▸ hparse),
    hcontent ▸ hparse, rfl⟩

private theorem circular_crossed : ((new standard).run (setEach crossed)).Circular ⟨0, 0⟩ := by
  let s₁ := (new standard).run (setEach [(⟨0, 1⟩, "=A1")])
  have hs₁ : s₁.Formed := formed_run standard _
  have hlimits : s₁.limits = standard := limits_setEach formed_of_empty _
  have hfree : ∀ x, ¬s₁.Circular x :=
    not_circular_of_names (by simp [Limits.Holds, standard]) (by decide +kernel) (by decide +kernel)
  have hreads : s₁.graph.Reads ⟨0, 1⟩ ⟨0, 0⟩ := by
    refine (hs₁.reads_iff_spells (hfree _)).mpr ⟨.cell ⟨0, 0⟩,
      spells_crossed (by simp [crossed]) parse_crossedFirst (by decide), ?_, Formula.names_cell.mpr rfl⟩
    unfold bounds
    rw [hlimits]
    decide
  have hplace : s₁.limits.Holds ⟨0, 0⟩ := by
    rw [hlimits]
    simp [Limits.Holds, standard]
  have hlike := (entered_set hs₁ (locate_given hplace) "=B1").alike hs₁ hplace
  rw [if_neg (by decide)] at hlike
  refine hlike.circular_iff.mp (circular_stage_iff.mpr ⟨.cell ⟨0, 1⟩, ⟨0, 1⟩, ?_, ?_,
    Formula.names_cell.mpr rfl, .single hreads⟩)
  · exact ⟨Formula.isFormulaText_of_parse parse_crossedSecond, parse_crossedSecond, rfl⟩
  · unfold bounds
    rw [hlimits]
    decide

private theorem not_closedBefore_crossed :
    ¬((new standard).run (setEach crossed)).ClosedBefore ⟨0, 0⟩ := by
  rintro ⟨f, x, hspells, -, hnames, hway⟩
  obtain rfl := hspells.unique (spells_crossed (fun _ => id) parse_crossedSecond
    (by decide))
  rw [Formula.names_cell] at hnames
  subst hnames
  rcases hway.cases_head with heq | ⟨y, ⟨hbefore, -, -⟩, -⟩
  · cases heq
  · simp [Address.Precedes] at hbefore

/-- Of two cells that name each other the first one was set last and refused. After a row is inserted
above them the second one is. -/
theorem insertLines_circular_crossed :
    let s := (new standard).run (setEach [(⟨0, 1⟩, "=A1"), (⟨0, 0⟩, "=B1")])
    let r := s.insertLines .row 0 1
    (∃ found, r.answer = .ok found) ∧
      ¬∀ b, r.sheet.Circular b ↔ ∃ a, s.Circular a ∧ a.shift? ⟨.row, 0, 1⟩ = some b := by
  rw [← show crossed = [(⟨0, 1⟩, "=A1"), (⟨0, 0⟩, "=B1")] from rfl]
  intro s r
  have hlimits : ((new standard).run (setEach crossed)).limits = standard :=
    limits_setEach formed_of_empty crossed
  have hlast : 0 ≤ ((new standard).run (setEach crossed)).lineCount .row :=
    Int.le_of_lt (lineCount_pos _ _)
  have htree : ∀ (a : Address) (c : Cell) f, s.cells[a]? = some c → Formula.parse c.content = .ok f →
      f = .cell ⟨0, 0⟩ ∨ f = .cell ⟨0, 1⟩ := by
    intro a c f hc hf
    exact (parse_crossed (mem_of_setEach holds_crossed hc) hf).imp And.right And.right
  obtain ⟨hpinned, -, -, hcalm⟩ := insertLines_circular standard (setEach crossed) .row 0 1
    (by decide) hlast (by decide) (by simp)
    (fun a c f hc hf _ => by
      rcases htree a c f hc hf with rfl | rfl <;> rfl)
    (fun a c f hc hf ref href => by
      have hspellable : ref.Spellable := by
        rcases htree a c f hc hf with rfl | rfl <;> revert ref <;> decide +kernel
      exact ⟨hspellable.near, hspellable.isWritable⟩)
  obtain ⟨found, hfound⟩ := hcalm (by decide +kernel) (by rw [hlimits]; decide +kernel) fun _ => by
    rw [hlimits]
    decide +kernel
  refine ⟨⟨found, hfound⟩, fun hsame => ?_⟩
  have hanswer : (s.insertLines .row 0 1).answer ≠ .error .halted := by
    rw [hfound]
    simp
  exact not_closedBefore_crossed ((hpinned hanswer).2.mp hsame _ circular_crossed)

end Sheet
end Spreadsheet
