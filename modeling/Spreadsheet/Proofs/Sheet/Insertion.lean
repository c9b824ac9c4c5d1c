import Spreadsheet.Proofs.Sheet.Carrying
import Spreadsheet.Proofs.Sheet.Reload

/-! Insertions of empty rows and columns. All cells are carried along, with the edges between them, and
new edges lead to empty cells only. A consistent sheet shows in each cell afterwards what it showed in
the cell that ended up there. -/
namespace Spreadsheet.Sheet

variable {s u : Sheet} {e : LineEdit} {a b x y : Address} {c : Cell}

/-! ## Places and edges -/

/-- Whether a sheet is what an insertion of empty lines makes of another one, but for its values. -/
structure Inserted (s u : Sheet) (e : LineEdit) : Prop where
  moved : ∀ (a : Address) (c : Cell), s.cells[a]? = some c → ∃ (b : Address) (c' : Cell),
    a.shift? e = some b ∧ u.cells[b]? = some c' ∧ Formula.shiftText e c.content = .ok c'.content ∧
      c'.formula? = c.formula?.map (Formula.shift e) ∧ c'.rejection? = c.rejection?
  all : ∀ b ∈ u.cells, ∃ a ∈ s.cells, a.shift? e = some b
  blank : ∀ b, e.Inserts (e.axis.position b) → b ∉ u.cells
  kept : ∀ a b x y, a.shift? e = some b → x.shift? e = some y →
    s.graph.Reads a x → u.graph.Reads b y
  reads : ∀ a b y, a.shift? e = some b → u.graph.Reads b y →
    e.Inserts (e.axis.position y) ∨ ∃ x, s.graph.Reads a x ∧ x.shift? e = some y

/-- An insertion that makes no range too large and leaves references that text can spell keeps all
cells. -/
theorem keeps_of_insertion (hfree : ∀ a, ¬s.Circular a) (hindex : 0 ≤ e.index)
    (hcount : 0 < e.count)
    (hsized : ∀ (a : Address) (c : Cell) f, s.cells[a]? = some c → c.formula? = some f →
      (f.shift e).oversized? s.limits.rangeCells = none)
    (hspelled : ∀ (a : Address) (c : Cell) f, s.cells[a]? = some c → Formula.parse c.content = .ok f →
      ∀ r ∈ (f.shift e).references, ¬r.IsFar ∧ r.isWritable) :
    s.Keeps e fun _ => True := by
  have hleft := Address.exists_shift?_eq_some (e := e) (Int.le_of_lt hcount)
  refine ⟨fun a _ => hleft a, fun _ _ _ _ => trivial, fun a _ => hfree a,
    fun a content kind f _ hform hparse => ⟨fun x _ => hleft x, fun _ => ?_⟩,
    fun a content f _ hform => ?_⟩
  · obtain ⟨c, hc, hsame⟩ := Option.map_eq_some_iff.mp hform
    cases hsame
    exact Formula.spellable_shift hindex hparse (hspelled a c f hc hparse)
  · obtain ⟨c, hc, hsame⟩ := Option.map_eq_some_iff.mp hform
    obtain ⟨-, hkind⟩ := Prod.mk.inj hsame
    exact hsized a c f hc (Cell.formula?_eq_some.mpr hkind)

theorem Carried.inserted (h : Carried s u e fun _ => True) (hs : s.Formed) (he : s.Admits e)
    (hk : s.Keeps e fun _ => True) : Inserted s u e where
  moved a c hc := by
    obtain ⟨b, hab⟩ := hk.left a trivial
    obtain ⟨text, htext, -, hform⟩ := h.form? a b c.content c.kind trivial hab (form?_of_getElem? hc)
    obtain ⟨c', hc', hsame⟩ := Option.map_eq_some_iff.mp hform
    obtain ⟨rfl, hkind⟩ := Prod.mk.inj hsame
    exact ⟨b, c', hab, hc', htext, Cell.Kind.formula?_shift hkind, Cell.Kind.rejection?_shift hkind⟩
  all b hb := by
    have hkept : ¬e.Inserts (e.axis.position b) := fun hinserted =>
      form?_eq_none.mp (h.blank b hinserted) hb
    obtain ⟨a, ha⟩ := Address.exists_shift?.mpr hkept
    refine ⟨a, ?_, ha⟩
    by_contra hvacant
    exact form?_eq_none.mp (h.vacant a b trivial ha (form?_eq_none.mpr hvacant)) hb
  blank b hb := form?_eq_none.mp (h.blank b hb)
  kept a b x y hab hxy hax := (h.reads_iff hs he hk trivial hab hxy).mpr hax
  reads a b y hab hby := by
    by_cases hinserted : e.Inserts (e.axis.position y)
    · exact .inl hinserted
    · obtain ⟨x, hxy⟩ := Address.exists_shift?.mpr hinserted
      exact .inr ⟨x, (h.reads_iff hs he hk trivial hab hxy).mp hby, hxy⟩

/-! ## Values -/

/-- A sheet in which each cell shows what another sheet shows in the cell that ends up there. -/
def showing (u s : Sheet) (e : LineEdit) : Sheet :=
  { u with cells := u.cells.map fun b c =>
      { c with result :=
          ((b.shift? e.undo).bind fun a => s.cells[a]?.map Cell.result).getD c.result } }

theorem alike_showing (u s : Sheet) (e : LineEdit) : Alike (u.showing s e) u where
  limits := rfl
  graph := rfl
  form? b := by
    unfold Sheet.form? showing
    rw [Std.ExtTreeMap.getElem?_map, Option.map_map]
    rfl

theorem Carried.showing (h : Carried s u e fun _ => True) (hcount : 0 < e.count)
    (hab : a.shift? e = some b) (hc : s.cells[a]? = some c) :
    ∃ c', (u.showing s e).cells[b]? = some c' ∧ c'.result = c.result := by
  obtain ⟨text, -, -, hform⟩ := h.form? a b c.content c.kind trivial hab (form?_of_getElem? hc)
  obtain ⟨c', hc', -⟩ := Option.map_eq_some_iff.mp hform
  unfold Sheet.showing
  rw [Std.ExtTreeMap.getElem?_map, hc', (Address.shift?_undo hcount).mpr hab]
  exact ⟨_, rfl, by rw [Option.bind_some, hc]; rfl⟩

/-- What a settled sheet shows is settled where an insertion takes it. -/
theorem Carried.settled_showing (h : Carried s u e fun _ => True) (hs : s.Formed) (he : s.Admits e)
    (hk : s.Keeps e fun _ => True) (hcount : 0 < e.count) (hsettled : ∀ a, s.Settled a) (b : Address) :
    (u.showing s e).Settled b := by
  have hcarried := h.alike (alike_showing u s e).symm
  intro c' hc'
  have hb : b ∈ (u.showing s e).cells := by
    rw [Std.ExtTreeMap.mem_iff_isSome_getElem?, hc']
    rfl
  obtain ⟨a, ha, hab⟩ := (hcarried.inserted hs he hk).all b hb
  obtain ⟨c, hc⟩ := Option.isSome_iff_exists.mp (Std.ExtTreeMap.mem_iff_isSome_getElem?.mp ha)
  obtain ⟨v, hv, hvalue⟩ := hsettled a c hc
  obtain ⟨d, hd, hresult⟩ := h.showing hcount hab hc
  rw [hc'] at hd
  cases hd
  refine ⟨v, hresult.trans hv, ?_⟩
  rw [← hvalue]
  exact hcarried.valueOf hs he hk trivial hab hc hc' fun x y _ hxy =>
    hcarried.seen trivial hxy fun d hd => h.showing hcount hxy hd

/-- A sheet is consistent if it shows what a settled sheet shows that it was carried into. -/
theorem Carried.consistent (h : Carried s u e fun _ => True) (hs : s.Formed) (he : s.Admits e)
    (hk : s.Keeps e fun _ => True) (hsettled : ∀ b, u.Settled b)
    (hsame : ∀ (a b : Address) (c : Cell), s.cells[a]? = some c → a.shift? e = some b →
      ∃ c', u.cells[b]? = some c' ∧ c'.result = c.result) : s.Consistent := by
  rw [consistent_iff]
  intro a c hc
  obtain ⟨b, hab⟩ := hk.left a trivial
  obtain ⟨c', hc', hresult⟩ := hsame a b c hc hab
  obtain ⟨v, hv, hvalue⟩ := hsettled b c' hc'
  refine ⟨v, hresult ▸ hv, .inl ?_⟩
  rw [← hvalue]
  exact (h.valueOf hs he hk trivial hab hc hc' fun x y _ hxy =>
    h.seen trivial hxy fun d hd => hsame x y d hd hxy).symm

/-! ## The whole edit -/

/-- Whether a formula that is refused ends up in a row whose number is too long to tell of it, or is refused
for a range whose limit is. -/
def MovesUntold (s : Sheet) (e : LineEdit) : Prop :=
  ∃ (a b : Address) (c : Cell) (reason : ErrorKind), s.cells[a]? = some c ∧
    c.rejection? = some reason ∧ a.shift? e = some b ∧ s.limits.tells b reason = false

/-- Every cell is in an inserted line or where a former one ends up. -/
theorem places (b : Address) : Places e (fun _ => True) b := by
  by_cases hinserted : e.Inserts (e.axis.position b)
  · exact .inl hinserted
  · obtain ⟨a, ha⟩ := Address.exists_shift?.mpr hinserted
    exact .inr ⟨a, trivial, ha⟩

theorem Keeps.movesUntold (hk : s.Keeps e fun _ => True) (hs : s.Formed) (he : s.Admits e)
    {contents : AddressMap String} (hcontents : s.movedContents e = .ok contents)
    (h : (s.emptied e).Untellable contents (Places e fun _ => True)) : s.MovesUntold e := by
  obtain ⟨b, text, reason, hb, hfits, hlong, hcycle⟩ := h
  obtain ⟨a, c, hc, hab, htext⟩ := (getElem?_movedContents hcontents).mp hb
  obtain ⟨text', htext', hfits', -⟩ := hk.fits hs he trivial (form?_of_getElem? hc)
  rw [htext] at htext'
  cases htext'
  have hkind := Cell.Kind.shift_ne_cycle (e := e)
    (ne_cycle_of_form? (hk.free a trivial) (form?_of_getElem? hc))
  have hreason : Cell.Kind.rejected reason ≠ .rejected .cycle := fun heq =>
    hcycle (places b) (Cell.Kind.rejected.inj heq)
  have hsame := hfits.unique hfits' hreason hkind
  have hrefused := Cell.Kind.reason?_shift (e := e) c.kind
  rw [← hsame] at hrefused
  refine ⟨a, b, c, reason, hc, ?_, hab, Limits.tells_edit.symm.trans hlong⟩
  exact Cell.rejection?_eq_some.mpr (Cell.Kind.reason?_eq_some.mp hrefused.symm)

/-- The pass over what a settled sheet is carried into comes to its end, with the same values. -/
theorem Carried.passed {contents : AddressMap String} {batch : Batch}
    {r : Edited (Except Fault (List Diagnostic))}
    (hentering : Entering (s.emptied e) contents (Places e fun _ => True) [] batch)
    (h : Carried s batch.sheet e fun _ => True) (hend : Reentered batch r) (hs : s.Formed)
    (he : s.Admits e) (hk : s.Keeps e fun _ => True) (hcount : 0 < e.count)
    (hsettled : ∀ a, s.Settled a) :
    (r.answer = .ok batch.found ∨ r.answer = .error .untold) ∧
      ∀ (a b : Address) (c : Cell), s.cells[a]? = some c → a.shift? e = some b →
        ∃ c', r.sheet.cells[b]? = some c' ∧ c'.result = c.result := by
  have hlike := alike_showing batch.sheet s e
  -- a pass over a sheet that is settled already leaves it as it is
  obtain ⟨v, hpass, hcells⟩ := hlike.recalculate (hlike.symm.formed h.formed)
    (h.settled_showing hs he hk hcount hsettled)
    fun a ha => mem_affected_of_entering hentering (hlike.mem_cells.mp ha)
  obtain ⟨hsheet, hanswer⟩ := hend.of_passed hpass
  refine ⟨hanswer, fun a b c hc hab => ?_⟩
  rw [hsheet, hcells]
  exact h.showing hcount hab hc

/-- What an insertion of lines comes to, where no formula is refused for a cycle. -/
theorem restructure_insertion (hs : s.Formed) (he : s.Admits e) (hcount : 0 < e.count)
    (hk : s.Keeps e fun _ => True) :
    ((s.restructure e).answer = .error .halted ↔ s.MovesUntold e) ∧
      ((s.restructure e).answer ≠ .error .halted →
        (Inserted s (s.restructure e).sheet e ∧
          ∀ found, (s.restructure e).answer = .ok found → ∀ d ∈ found, d.rejection.kind ≠ .cycle) ∧
        (s.Consistent ↔
          ((∃ found, (s.restructure e).answer = .ok found) ∨
              (s.restructure e).answer = .error .untold) ∧
            ∀ (a b : Address) (c : Cell), s.cells[a]? = some c → a.shift? e = some b →
              ∃ c', (s.restructure e).sheet.cells[b]? = some c' ∧ c'.result = c.result)) := by
  obtain ⟨contents, hcontents⟩ := exists_movedContents (s := s) (e := e) fun a c hc _ => by
    obtain ⟨text, htext, -⟩ := hk.fits hs he trivial (form?_of_getElem? hc)
    exact ⟨text, htext⟩
  rcases restructure_cases hcontents (hk.foreseen hs he hcontents) with
    ⟨hhalted, huntold⟩ | ⟨batch, -, hb, hend⟩
  · exact ⟨iff_of_true hhalted (hk.movesUntold hs he hcontents huntold), fun h => absurd hhalted h⟩
  have hcarried := hk.carried hs he hcontents hb
  have hlike := hend.alike hcarried.formed
  have hinserted := (hcarried.alike hlike).inserted hs he hk
  refine ⟨iff_of_false hend.not_halted ?_, fun _ => ⟨⟨hinserted, ?_⟩, fun hconsistent => ?_,
    fun ⟨hanswer, hsame⟩ => ?_⟩⟩
  · have htellable := hlike.tellable (hb.staged.tellable (tellable_of_empty rfl))
    rintro ⟨a, b, c, reason, hc, hrefused, hab, hlong⟩
    obtain ⟨b', c', hab', hc', -, -, hsame⟩ := hinserted.moved a c hc
    rw [hab] at hab'
    cases hab'
    have htold := htellable b c' reason hc' (hsame ▸ hrefused)
    rw [← hlike.limits, hb.staged.limits] at htold
    exact Bool.false_ne_true (hlong.symm.trans (Limits.tells_edit.symm.trans htold))
  · intro found hfound d hd hcycle
    obtain rfl := hend.found hfound
    exact hb.diagnostics d (List.mem_reverse.mp hd) hcycle (places _)
  · obtain ⟨hanswer, hsame⟩ := hcarried.passed hb hend hs he hk hcount
      (hconsistent.settled fun a => hk.free a trivial)
    exact ⟨hanswer.imp_left fun h => ⟨_, h⟩, hsame⟩
  · have hcalm : ∀ fault, (s.restructure e).answer ≠ .error (.precision fault) := by
      rcases hanswer with ⟨found, hanswer⟩ | hanswer <;> simp [hanswer]
    exact (hcarried.alike hlike).consistent hs he hk (hend.settled hb hcalm) hsame

theorem insertLines_eq {axis : Axis} {index count : Int} (hindex : 0 ≤ index)
    (hlast : index ≤ s.lineCount axis) (hcount : 1 ≤ count)
    (hcols : axis = .col → s.lineCount axis + count ≤ mostColumns) :
    s.insertLines axis index count = s.restructure ⟨axis, index, count⟩ := by
  unfold insertLines
  rw [if_neg (by omega), if_neg (by omega), if_neg]
  rintro ⟨haxis, hwide⟩
  have hnarrow := hcols haxis
  omega

theorem lineCount_pos (s : Sheet) (axis : Axis) : 0 < s.lineCount axis := by
  cases axis with
  | row => exact s.limits.rows.property
  | col => exact s.limits.cols.property

theorem admits_insertion {axis : Axis} {index count : Int} (hindex : 0 ≤ index)
    (hlast : index ≤ s.lineCount axis) (hcount : 1 ≤ count) : s.Admits ⟨axis, index, count⟩ := by
  have hlines := lineCount_pos s axis
  exact ⟨hindex, hlast, .inl (by dsimp only; omega), by dsimp only; omega⟩

/-- An insertion of empty lines into a sheet without a formula refused for a cycle, after any history, if
no range becomes too large and all moved references still have a text. Every cell ends up in its new
place and stays what it was, the inserted lines are empty, the edges go along with their cells and new
ones lead to empty cells only, and nothing is refused for a cycle. All this is so unless a refused
formula ends up in a row whose number is too long to tell of it. Exactly if the sheet was consistent, as
it is after every history that was not interrupted, the insertion calculates all cells and each shows
what it showed. -/
theorem insertLines_run (limits : Limits) (history : List Edit) (axis : Axis) (index count : Int) :
    let s := (new limits).run history
    let e : LineEdit := ⟨axis, index, count⟩
    let r := s.insertLines axis index count
    (∀ a, ¬s.Circular a) → 0 ≤ index → index ≤ s.lineCount axis → 1 ≤ count →
      (axis = .col → s.lineCount axis + count ≤ mostColumns) →
      (∀ (a : Address) (c : Cell) f, s.cells[a]? = some c → c.formula? = some f →
        (f.shift e).oversized? s.limits.rangeCells = none) →
      (∀ (a : Address) (c : Cell) f, s.cells[a]? = some c → Formula.parse c.content = .ok f →
        ∀ ref ∈ (f.shift e).references, ¬ref.IsFar ∧ ref.isWritable) →
      (r.answer ≠ .error .halted →
        (Inserted s r.sheet e ∧ ∀ found, r.answer = .ok found → ∀ d ∈ found, d.rejection.kind ≠ .cycle) ∧
        (s.Consistent ↔
          ((∃ found, r.answer = .ok found) ∨ r.answer = .error .untold) ∧
            ∀ (a b : Address) (c : Cell), s.cells[a]? = some c → a.shift? e = some b →
              ∃ c', r.sheet.cells[b]? = some c' ∧ c'.result = c.result)) ∧
      (r.answer = .error .halted ↔ s.MovesUntold e) ∧
      ((new limits).Uninterrupted history → s.Consistent) ∧
      (limits.precision.val ≤ Number.maxPrecision →
        (∀ past, past <+: history ++ [.insertLines axis index count] →
          Number.isWritable ((new limits).run past).limits.rows ∧ ((new limits).run past).TellsRanges) →
            s.Consistent ∧ r.answer ≠ .error .halted) := by
  intro s e r hfree hindex hlast hcount hcols hsized hspelled
  have hs : s.Formed := formed_run limits history
  have he : s.Admits e := admits_insertion hindex hlast hcount
  have hpos : 0 < e.count := by dsimp only [e]; omega
  have hr : r = s.restructure e := insertLines_eq hindex hlast hcount hcols
  obtain ⟨hhalted, hcalm⟩ := restructure_insertion hs he hpos
    (keeps_of_insertion hfree hindex hpos hsized hspelled)
  rw [← hr] at hhalted hcalm
  refine ⟨hcalm, hhalted, consistent_of_uninterrupted, fun hprecision hwritable => ?_⟩
  obtain ⟨huninterrupted, hcalm'⟩ :=
    uninterrupted_snoc.mp (uninterrupted_of_writable hprecision hwritable)
  refine ⟨consistent_of_uninterrupted huninterrupted, fun hhalt => ?_⟩
  cases hcalm' .halted (congrArg faultOf hhalt)

private def summed : List (Address × String) :=
  [(⟨0, 0⟩, "2"), (⟨2, 0⟩, "3"), (⟨0, 1⟩, "=SUM(A1:A3)")]

private def sumOfRows : Formula := .call "SUM" [.range ⟨0, 0⟩ ⟨2, 0⟩]

private theorem holds_summed : ∀ item ∈ summed, standard.Holds item.1 := by
  simp [summed, Limits.Holds, standard]

private theorem parse_summed {content : String} {f : Formula} (hmem : (a, content) ∈ summed)
    (hf : Formula.parse content = .ok f) : a = ⟨0, 1⟩ ∧ f = sumOfRows := by
  have hsum : Formula.parse "=SUM(A1:A3)" = .ok sumOfRows := eq_ok_of_toOption (by decide +kernel)
  have hformula := Formula.isFormulaText_of_parse hf
  simp only [summed, List.mem_cons, Prod.mk.injEq, List.not_mem_nil, or_false] at hmem
  rcases hmem with ⟨-, rfl⟩ | ⟨-, rfl⟩ | ⟨rfl, rfl⟩
  · exact absurd hformula (by decide)
  · exact absurd hformula (by decide)
  · rw [hsum] at hf
    exact ⟨rfl, (Except.ok.inj hf).symm⟩

private theorem not_circular_summed : ∀ a, ¬((new standard).run (setEach summed)).Circular a :=
  not_circular_of_names holds_summed (by decide +kernel) (by decide +kernel)

/-- Two rows inside a range that is added up. -/
theorem insertLines_sum :
    let s := (new standard).run
      (setEach [(⟨0, 0⟩, "2"), (⟨2, 0⟩, "3"), (⟨0, 1⟩, "=SUM(A1:A3)")])
    let r := s.insertLines .row 1 2
    Inserted s r.sheet ⟨.row, 1, 2⟩ ∧
      ∀ (a b : Address) (c : Cell), s.cells[a]? = some c → a.shift? ⟨.row, 1, 2⟩ = some b →
        ∃ c', r.sheet.cells[b]? = some c' ∧ c'.result = c.result := by
  rw [← show summed = [(⟨0, 0⟩, "2"), (⟨2, 0⟩, "3"), (⟨0, 1⟩, "=SUM(A1:A3)")] from rfl]
  intro s r
  have hs : s.Formed := formed_run standard _
  have hlimits : ((new standard).run (setEach summed)).limits = standard :=
    limits_setEach formed_of_empty summed
  have htree : ∀ (a : Address) (c : Cell) f, s.cells[a]? = some c → Formula.parse c.content = .ok f →
      f = sumOfRows := fun a c f hc hf => (parse_summed (mem_of_setEach holds_summed hc) hf).2
  have hspellable : ∀ r ∈ (sumOfRows.shift ⟨.row, 1, 2⟩).references, r.Spellable := by decide +kernel
  have hlast : 1 ≤ ((new standard).run (setEach summed)).lineCount .row := by
    rw [lineCount, hlimits]
    decide
  obtain ⟨hcalm, -, hconsistent, -⟩ := insertLines_run standard (setEach summed) .row 1 2
    not_circular_summed (by decide) hlast (by decide) (by simp)
    (fun a c f hc hf => by
      rw [htree a c f hc (hs.parse_of_formula? hc hf), hlimits]
      decide +kernel)
    (fun a c f hc hf ref href => by
      rw [htree a c f hc hf] at href
      exact ⟨(hspellable ref href).near, (hspellable ref href).isWritable⟩)
  have hanswer : r.answer ≠ .error .halted := by
    have hr : r = s.restructure ⟨.row, 1, 2⟩ := insertLines_eq (by decide) hlast (by decide) (by simp)
    rw [hr]
    intro hhalted
    cases restructure_calm hs (bounded_run standard _) (by decide) (.inl (by decide))
      (by rw [hlimits]; decide +kernel) (by rw [hlimits]; decide +kernel)
      (by rw [hlimits]; decide +kernel) (by rw [hlimits]; decide +kernel) .halted
      (congrArg faultOf hhalted)
  obtain ⟨⟨hinserted, -⟩, hvalues⟩ := hcalm hanswer
  refine ⟨hinserted, (hvalues.mp (hconsistent ?_)).2⟩
  exact uninterrupted_setEach formed_of_empty (bounded_new _) (by decide +kernel) (by decide +kernel)
    fun _ => by decide +kernel

end Spreadsheet.Sheet
