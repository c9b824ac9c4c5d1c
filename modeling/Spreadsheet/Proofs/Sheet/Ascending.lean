import Mathlib.Tactic.ByContra
import Spreadsheet.Proofs.Address.Rectangle
import Spreadsheet.Proofs.Sheet.Entering

/-! Contents entered in ascending order into an empty sheet. A formula is refused for a cycle just if
accepted cells that come before it close one, so that the sheet that is left tells which formulas were
refused, and nothing else of the way to it does. -/
namespace Spreadsheet

namespace Sheet

open Relation (ReflTransGen)

/-- The formula that the content of a cell spells, if its ranges are not too large. Whether the cell is
refused for a cycle does not matter. -/
def Spells (s : Sheet) (a : Address) (f : Formula) : Prop :=
  ∃ content kind, s.form? a = some (content, kind) ∧ (Cell.Kind.formula f).Fits s.limits content

/-- An edge that a cell accepted before `a` has. -/
def ReadsBefore (s : Sheet) (a b y : Address) : Prop :=
  b.Precedes a ∧ ¬s.Circular b ∧ s.graph.Reads b y

/-- Whether a formula names a cell from which accepted cells before it lead back to it. -/
def ClosedBefore (s : Sheet) (a : Address) : Prop :=
  ∃ f x, s.Spells a f ∧ s.bounds.contains x ∧ f.Names x ∧ ReflTransGen (s.ReadsBefore a) x a

section Spelled

variable {s t : Sheet} {a b x : Address} {f g : Formula}

theorem Spells.unique (h : s.Spells a f) (h' : s.Spells a g) : f = g := by
  obtain ⟨content, kind, hform, hfits⟩ := h
  obtain ⟨content', kind', hform', hfits'⟩ := h'
  rw [hform] at hform'
  cases hform'
  exact Cell.Kind.formula.inj (hfits.unique hfits' (by simp) (by simp))

theorem spells_congr (hlimits : t.limits = s.limits) (hform : t.form? a = s.form? a) :
    t.Spells a f ↔ s.Spells a f := by
  unfold Spells
  rw [hlimits, hform]

/-- A cell that is not refused for a cycle reads what its formula names within the bounds. -/
theorem Formed.reads_iff_spells (h : s.Formed) (hfree : ¬s.Circular a) :
    s.graph.Reads a b ↔ ∃ f, s.Spells a f ∧ s.bounds.contains b ∧ f.Names b := by
  cases hform : s.form? a with
  | none =>
    refine iff_of_false (h.not_reads_of_vacant hform) ?_
    rintro ⟨f, ⟨content, kind, hsome, -⟩, -⟩
    rw [hform] at hsome
    contradiction
  | some form =>
    obtain ⟨content, kind⟩ := form
    have hkind := ne_cycle_of_form? hfree hform
    have hfits := h.fits a _ hform
    rw [h.reads_iff hform hkind]
    constructor
    · rintro ⟨f, rfl, hb⟩
      exact ⟨f, ⟨content, _, hform, hfits⟩, hb⟩
    · rintro ⟨f, ⟨content', kind', hform', hspelled⟩, hb⟩
      rw [hform] at hform'
      cases hform'
      exact ⟨f, hfits.unique hspelled hkind (by simp), hb⟩

theorem Formed.exists_spells (h : s.Formed) (ha : s.Circular a) : ∃ f, s.Spells a f := by
  obtain ⟨content, hform⟩ := circular_iff.mp ha
  obtain ⟨hformula, f, hf, hsize⟩ := h.fits a _ hform
  exact ⟨f, content, _, hform, hformula, hf, hsize⟩

/-- A cycle that cells before the last one close is refused, since accepted edges close none. -/
theorem Formed.circular_of_closedBefore (h : s.Formed) (ha : s.ClosedBefore a) : s.Circular a := by
  obtain ⟨f, x, hspells, hx, hnames, hway⟩ := ha
  by_contra hfree
  have hax := (h.reads_iff_spells hfree).mpr ⟨f, hspells, hx, hnames⟩
  exact h.acyclic a (.head' hax (ReflTransGen.mono (fun _ _ hstep => hstep.2.2) _ _ hway))

theorem Alike.closedBefore (h : Alike s t) (ha : s.ClosedBefore a) : t.ClosedBefore a := by
  obtain ⟨f, x, hspells, hx, hnames, hway⟩ := ha
  refine ⟨f, x, (spells_congr h.limits.symm (h.form? a).symm).mpr hspells, h.bounds ▸ hx, hnames, ?_⟩
  refine ReflTransGen.mono (fun b y hstep => ?_) _ _ hway
  obtain ⟨hbefore, hfree, hread⟩ := hstep
  exact ⟨hbefore, fun hb => hfree (h.circular_iff.mpr hb), h.graph ▸ hread⟩

end Spelled

/-- A formula is refused for a cycle just if there is a way from a cell that it names to its own. -/
theorem circular_stage_iff {s : Sheet} {a : Address} {content : String} :
    (s.stage a content).1.Circular a ↔
      ∃ f x, (Cell.Kind.formula f).Fits s.limits content ∧ s.bounds.contains x ∧ f.Names x ∧
        ReflTransGen s.graph.Reads x a := by
  rw [circular_iff]
  obtain ⟨kind, hfits, -, ⟨targets, hreads, hfree, -, hstage⟩ | ⟨-, ⟨f, hf, hpath⟩, hstage⟩⟩ :=
    stage_cases s a content
  · rw [hstage, form?_insert rfl, if_pos rfl]
    constructor
    · rintro ⟨text, heq⟩
      cases heq
      contradiction
    · rintro ⟨f, x, hf, hx, hnames, hway⟩
      have hkind : kind ≠ .rejected .cycle := by
        rintro rfl
        contradiction
      obtain rfl := hf.unique hfits (by simp) hkind
      cases hreads
      have hsome := Graph.isSome_cyclePath?.mpr ⟨x, Formula.mem_addresses.mpr ⟨hx, hnames⟩, hway⟩
      rw [hfree] at hsome
      contradiction
  · rw [hstage, form?_insert rfl, if_pos rfl]
    obtain ⟨x, hx, hway⟩ := Graph.isSome_cyclePath?.mp hpath
    obtain ⟨hin, hnames⟩ := Formula.mem_addresses.mp hx
    exact iff_of_true ⟨content, rfl⟩ ⟨f, x, hf, hin, hnames, hway⟩

/-- A batch that has entered contents in ascending order into an empty sheet, but for those that are
left. No cell was staged twice, so that one refused for a cycle reads nothing. -/
structure Ascending (left : List (Address × String)) (b : Batch) : Prop where
  formed : b.sheet.Formed
  before : ∀ x ∈ b.sheet.cells, ∀ item ∈ left, x.Precedes item.1
  silent : ∀ x y, b.sheet.Circular x → ¬b.sheet.graph.Reads x y
  circular : ∀ x, b.sheet.Circular x ↔ b.sheet.ClosedBefore x
  diagnostics : ∀ x, (∃ d ∈ b.diagnostics, d.address = x ∧ d.rejection.kind = .cycle) ↔
    b.sheet.Circular x

namespace Ascending

variable {left : List (Address × String)} {b : Batch} {a x : Address} {content : String}

theorem mem_cells_of_reads (h : Ascending left b) {y : Address} (hxy : b.sheet.graph.Reads x y) :
    x ∈ b.sheet.cells := by
  by_contra hvacant
  exact h.formed.not_reads_of_vacant (form?_eq_none.mpr hvacant) hxy

/-- The next cell changes nothing in those before it. -/
theorem circular_stage_other (h : Ascending ((a, content) :: left) b) (hx : x ∈ b.sheet.cells) :
    ((b.sheet.stage a content).1.Circular x ↔ b.sheet.Circular x) ∧
      ((b.sheet.stage a content).1.ClosedBefore x ↔ b.sheet.ClosedBefore x) := by
  have hbefore : ∀ y, y ∈ b.sheet.cells → y ≠ a := fun y hy =>
    (h.before y hy _ List.mem_cons_self).ne
  obtain ⟨kind, -, -, hform⟩ := form?_stage b.sheet a content
  have hcircular : ∀ y, y ≠ a →
      ((b.sheet.stage a content).1.Circular y ↔ b.sheet.Circular y) := by
    intro y hy
    rw [circular_iff, circular_iff, hform, if_neg hy]
  have hlimits := limits_stage b.sheet a content
  have hspells : ∀ f, (b.sheet.stage a content).1.Spells x f ↔ b.sheet.Spells x f := fun f =>
    spells_congr hlimits (by rw [hform, if_neg (hbefore x hx)])
  have hedges : (b.sheet.stage a content).1.ReadsBefore x = b.sheet.ReadsBefore x := by
    funext y z
    unfold ReadsBefore
    by_cases hyx : y.Precedes x
    · have hya : y ≠ a := by
        rintro rfl
        have hxy := h.before x hx _ List.mem_cons_self
        unfold Address.Precedes at hxy hyx
        dsimp only at hxy
        omega
      rw [hcircular y hya, Graph.Reads, (stage_other b.sheet content hya).2]
      rfl
    · simp [hyx]
  refine ⟨hcircular x (hbefore x hx), ?_⟩
  unfold ClosedBefore
  simp only [hspells, hedges, bounds, hlimits]

/-- Whether the next cell is refused for a cycle shows in the sheet that it leaves. -/
theorem circular_stage_self (h : Ascending ((a, content) :: left) b) :
    (b.sheet.stage a content).1.Circular a ↔ (b.sheet.stage a content).1.ClosedBefore a := by
  obtain ⟨kind, -, -, hform⟩ := form?_stage b.sheet a content
  have hlimits := limits_stage b.sheet a content
  have hspells : ∀ f, (b.sheet.stage a content).1.Spells a f ↔
      (Cell.Kind.formula f).Fits b.sheet.limits content := by
    intro f
    unfold Spells
    rw [hform, if_pos rfl, hlimits]
    constructor
    · rintro ⟨text, taken, heq, hfits⟩
      cases heq
      exact hfits
    · exact fun hfits => ⟨content, kind, rfl, hfits⟩
  -- all edges that there are come from cells before this one
  have hedges : (b.sheet.stage a content).1.ReadsBefore a = b.sheet.graph.Reads := by
    funext y z
    refine propext ⟨?_, fun hyz => ?_⟩
    · rintro ⟨hbefore, -, hyz⟩
      rwa [Graph.Reads, (stage_other b.sheet content hbefore.ne).2] at hyz
    · have hy := h.mem_cells_of_reads hyz
      have hbefore : y.Precedes a := h.before y hy _ List.mem_cons_self
      refine ⟨hbefore, fun hcircular => ?_, ?_⟩
      · exact h.silent y z ((h.circular_stage_other hy).1.mp hcircular) hyz
      · rwa [Graph.Reads, (stage_other b.sheet content hbefore.ne).2]
  rw [circular_stage_iff, ClosedBefore, hedges]
  simp only [hspells, bounds, hlimits]

theorem mem_cells_stage {s : Sheet} (h : x ∈ (s.stage a content).1.cells) : x = a ∨ x ∈ s.cells := by
  obtain ⟨kind, -, -, hform⟩ := form?_stage s a content
  by_contra hne
  rw [not_or] at hne
  exact form?_eq_none.mp (by rw [hform, if_neg hne.1, form?_eq_none.mpr hne.2]) h

theorem mem_cells_of_circular {s : Sheet} (h : s.Circular x) : x ∈ s.cells := by
  obtain ⟨c, hc, -⟩ := h
  rw [Std.ExtTreeMap.mem_iff_isSome_getElem?, hc]
  rfl

theorem vacant (h : Ascending ((a, content) :: left) b) : a ∉ b.sheet.cells :=
  fun hmem => (h.before a hmem _ List.mem_cons_self).ne rfl

/-- A cell that is refused for a cycle reads nothing, since it was empty before. -/
theorem silent_stage (h : Ascending ((a, content) :: left) b) (y : Address)
    (hx : (b.sheet.stage a content).1.Circular x) :
    ¬(b.sheet.stage a content).1.graph.Reads x y := by
  rcases mem_cells_stage (mem_cells_of_circular hx) with rfl | hmem
  · obtain ⟨taken, -, -, ⟨targets, hreads, -, -, hstage⟩ | ⟨-, -, hstage⟩⟩ :=
      stage_cases b.sheet x content
    · rw [hstage, circular_iff, form?_insert rfl, if_pos rfl] at hx
      obtain ⟨text, heq⟩ := hx
      cases heq
      contradiction
    · rw [hstage]
      exact h.formed.not_reads_of_vacant (form?_eq_none.mpr h.vacant)
  · have hxa := (h.before x hmem _ List.mem_cons_self).ne
    rw [Graph.Reads, (stage_other b.sheet content hxa).2]
    exact h.silent x y ((h.circular_stage_other hmem).1.mp hx)

theorem circular_stage (h : Ascending ((a, content) :: left) b) (x : Address) :
    (b.sheet.stage a content).1.Circular x ↔ (b.sheet.stage a content).1.ClosedBefore x := by
  by_cases hx : x ∈ (b.sheet.stage a content).1.cells
  · rcases mem_cells_stage hx with rfl | hx
    · exact h.circular_stage_self
    · rw [(h.circular_stage_other hx).1, (h.circular_stage_other hx).2, h.circular x]
  · refine iff_of_false (fun hcircular => hx (mem_cells_of_circular hcircular)) ?_
    rintro ⟨f, y, ⟨text, taken, hspelled, -⟩, -⟩
    rw [form?_eq_none.mpr hx] at hspelled
    contradiction

/-- Just the next cell may add a diagnostic, which tells of a cycle just if the cell closes one. -/
theorem diagnostics_stage (h : Ascending ((a, content) :: left) b) (x : Address) :
    (∃ d ∈ ((b.sheet.stage a content).2.map (Diagnostic.mk a)).toList ++ b.diagnostics,
      d.address = x ∧ d.rejection.kind = .cycle) ↔ (b.sheet.stage a content).1.Circular x := by
  obtain ⟨kind, -, hreason, hform⟩ := form?_stage b.sheet a content
  simp only [List.mem_append, Option.mem_toList, Option.map_eq_some_iff, or_and_right, exists_or,
    h.diagnostics]
  by_cases hxa : x = a
  · subst hxa
    have hself : (b.sheet.stage x content).1.Circular x ↔ kind = .rejected .cycle := by
      rw [circular_iff, hform, if_pos rfl]
      simp
    rw [hself]
    constructor
    · rintro (⟨d, ⟨r, hr, rfl⟩, -, hcycle⟩ | hcircular)
      · rw [hr] at hreason
        exact (Cell.Kind.reason?_eq_some.mp hreason.symm).trans (congrArg _ hcycle)
      · exact absurd (mem_cells_of_circular hcircular) h.vacant
    · rintro rfl
      obtain ⟨r, hr, hcycle⟩ := Option.map_eq_some_iff.mp hreason
      exact .inl ⟨_, ⟨r, hr, rfl⟩, rfl, hcycle⟩
  · rw [circular_iff (s := (b.sheet.stage a content).1), hform, if_neg hxa, ← circular_iff]
    refine ⟨fun hor => hor.resolve_left ?_, .inr⟩
    rintro ⟨d, ⟨r, -, rfl⟩, heq, -⟩
    exact hxa heq.symm

theorem stage (h : Ascending ((a, content) :: left) b) (ha : b.sheet.limits.Holds a)
    (hcontent : Text.isAllBlank content = false) (hlater : ∀ item ∈ left, a.Precedes item.1) :
    Ascending left ⟨(b.sheet.stage a content).1, b.touched.insert a,
      ((b.sheet.stage a content).2.map (Diagnostic.mk a)).toList ++ b.diagnostics⟩ := by
  refine ⟨h.formed.stage ha hcontent, fun x hx item hitem => ?_, fun x y => h.silent_stage y,
    h.circular_stage, h.diagnostics_stage⟩
  rcases mem_cells_stage hx with rfl | hx
  · exact hlater item hitem
  · exact h.before x hx item (List.mem_cons_of_mem _ hitem)

theorem putAll (h : Ascending left b) (hin : ∀ item ∈ left, b.sheet.limits.Holds item.1)
    (hvisible : ∀ item ∈ left, Text.isAllBlank item.2 = false)
    (hsorted : left.Pairwise fun item later => item.1.Precedes later.1) {b' : Batch}
    (hput : b.putAll left = .ok b') : Ascending [] b' := by
  induction left generalizing b with
  | nil =>
    cases hput
    exact h
  | cons item left ih =>
    obtain ⟨a, content⟩ := item
    obtain ⟨hlater, hsorted⟩ := List.pairwise_cons.mp hsorted
    obtain ⟨next, hnext, hrest⟩ := putAll_cons.mp hput
    have hcontent : Text.isAllBlank content = false := hvisible _ List.mem_cons_self
    have hstage := h.stage (hin _ List.mem_cons_self) hcontent hlater
    have hafter := afterPut_put b a content
    rw [hnext] at hafter
    cases hafter with
    | emptied hblank _ | kept hblank _ => exact absurd hblank (by simp [hcontent])
    | staged _ _ =>
      refine ih hstage (fun item hitem => ?_)
        (fun item hitem => hvisible item (List.mem_cons_of_mem _ hitem)) hsorted hrest
      rw [limits_stage]
      exact hin item (List.mem_cons_of_mem _ hitem)

end Ascending

/-- Contents entered into an empty sheet leave one that tells which of them close a cycle. -/
theorem ascending_of_putAll {s : Sheet} {contents : AddressMap String}
    (hs : s.Formed) (hvacant : ∀ x, s.form? x = none)
    (hin : ∀ a ∈ contents, s.limits.Holds a)
    (hvisible : ∀ (a : Address) content, contents[a]? = some content → Text.isAllBlank content = false)
    {b : Batch} (hput : (Batch.start s).putAll contents.toList = .ok b) : Ascending [] b := by
  have hnone : ∀ x, ¬s.Circular x := by
    intro x hx
    obtain ⟨content, hform⟩ := circular_iff.mp hx
    rw [hvacant] at hform
    contradiction
  refine Ascending.putAll ⟨hs, fun x hx => ?_, fun x y hx => absurd hx (hnone x), fun x => ?_,
    fun x => ?_⟩ (fun item hitem => hin item.1 (mem_of_mem_toList hitem))
    (fun item hitem => hvisible _ _ (Std.ExtTreeMap.mem_toList_iff_getElem?_eq_some.mp hitem))
    (Std.ExtTreeMap.ordered_keys_toList.imp Address.compare_eq_lt.mp) hput
  · exact absurd hx (form?_eq_none.mp (hvacant x))
  · refine iff_of_false (hnone x) ?_
    rintro ⟨f, y, ⟨content, kind, hform, -⟩, -⟩
    have hform' : s.form? x = some (content, kind) := hform
    rw [hvacant] at hform'
    contradiction
  · exact iff_of_false (by simp [Batch.start]) (hnone x)

end Sheet
end Spreadsheet
