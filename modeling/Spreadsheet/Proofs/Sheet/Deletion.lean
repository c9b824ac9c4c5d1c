import Spreadsheet.Proofs.Sheet.Carrying
import Spreadsheet.Proofs.Sheet.Setting

/-! Deletions of rows and columns. A cell that names no deleted cell, and reads none that does, keeps its
value whatever becomes of the others. In every formula that is left a reference to one deleted cell
becomes an error. -/
namespace Spreadsheet.Sheet

variable {s u : Sheet} {e : LineEdit} {a b x y : Address} {c : Cell}

/-- Whether neither a cell nor any that it reads, directly or through others, names a deleted cell. -/
def Independent (s : Sheet) (e : LineEdit) (a : Address) : Prop :=
  ∀ x, Relation.ReflTransGen s.graph.Reads a x → ∀ (c : Cell) f, s.cells[x]? = some c →
    Formula.parse c.content = .ok f → ∀ y, f.Names y → ∃ z, y.shift? e = some z

/-- Whether text can spell the columns of all references. -/
def Near (s : Sheet) : Prop :=
  ∀ (a : Address) (c : Cell) f, s.cells[a]? = some c → Formula.parse c.content = .ok f →
    ∀ r ∈ f.references, ¬r.IsFar

/-! ## Cells that are left -/

/-- What an independent cell reads is left and independent, too. -/
theorem Independent.of_reads (h : s.Independent e a) (hs : s.Formed) (hfree : ∀ a, ¬s.Circular a)
    (hab : s.graph.Reads a b) : (∃ z, b.shift? e = some z) ∧ s.Independent e b := by
  obtain ⟨c, f, hc, hparse, hnames⟩ := hs.names_of_reads (hfree a) hab
  exact ⟨h a .refl c f hc hparse b hnames, fun x hx => h x (.head hab hx)⟩

/-- A deletion keeps the independent cells that are left. -/
theorem keeps_of_deletion (hs : s.Formed) (hfree : ∀ a, ¬s.Circular a) (hnear : s.Near)
    (hindex : 0 ≤ e.index) (hcount : e.count ≤ 0) :
    s.Keeps e fun a => (∃ b, a.shift? e = some b) ∧ s.Independent e a where
  left _ ha := ha.1
  closed _ _ ha hab := ha.2.of_reads hs hfree hab
  free a _ := hfree a
  kept a content kind f ha hform hparse := by
    obtain ⟨c, hc, hsame⟩ := Option.map_eq_some_iff.mp hform
    cases hsame
    exact ⟨ha.2 a .refl c f hc hparse, fun _ =>
      Formula.spellable_shift_of_count_nonpos hindex hcount hparse (hnear a c f hc hparse)⟩
  sized a content f _ hform :=
    Formula.oversized?_shift_of_count_nonpos hcount (hs.fits a _ hform).2.2

theorem admits_of_left (hindex : 0 ≤ e.index) (hcount : e.count < 0)
    (hstop : e.stop ≤ s.lineCount e.axis) (hin : s.limits.Holds a) (hab : a.shift? e = some b) :
    s.Admits e := by
  have hinside := (contains_iff e.axis).mp (holds_iff.mp hin).2
  have hpos := (holds_iff.mp hin).1.position e.axis
  have hleft := (Address.shift?_eq_some.mp hab).1
  rw [LineEdit.movePosition?_eq_some] at hleft
  unfold LineEdit.stop at hstop hleft
  refine ⟨hindex, by omega, .inr hstop, by omega⟩

/-! ## What is entered anew -/

theorem Near.exists_shiftText (hnear : s.Near) (hindex : 0 ≤ e.index) (hcount : e.count ≤ 0)
    (hc : s.cells[a]? = some c) : ∃ text, Formula.shiftText e c.content = .ok text ∧
      ∀ f, Formula.parse c.content = .ok f → Formula.parse text = .ok (f.shift e) := by
  by_cases hformula : ∃ f, Formula.parse c.content = .ok f
  · obtain ⟨f, hf⟩ := hformula
    obtain ⟨text, htext, hparse⟩ := Formula.exists_shiftText hindex hf fun _ =>
      Formula.spellable_shift_of_count_nonpos hindex hcount hf (hnear a c f hc hf)
    refine ⟨text, htext, fun g hg => ?_⟩
    rw [hf] at hg
    cases hg
    exact hparse
  · have hmalformed := not_exists.mp hformula
    exact ⟨c.content, Formula.shiftText_of_malformed hmalformed, fun f hf => absurd hf (hmalformed f)⟩

/-- The references of a formula to single cells that are deleted have become errors in another one. -/
def Severed (e : LineEdit) (f g : Formula) : Prop :=
  g = f.shift e ∧ ∀ path x, f.at? path = some (.cell x) → x.shift? e = none →
    g.at? path = some .missing

theorem severed_shift (e : LineEdit) (f : Formula) : Severed e f (f.shift e) := by
  refine ⟨rfl, fun path x hx hdeleted => ?_⟩
  rw [Formula.at?_shift, hx, Option.map_some, Formula.shift, Formula.shiftCell, hdeleted]

/-! ## The whole edit -/

theorem Near.exists_movedContents (hnear : s.Near) (hindex : 0 ≤ e.index) (hcount : e.count ≤ 0) :
    ∃ contents, s.movedContents e = .ok contents :=
  Sheet.exists_movedContents fun a c hc _ => by
    obtain ⟨text, htext, -⟩ := hnear.exists_shiftText hindex hcount hc
    exact ⟨text, htext⟩

/-- A deletion that stops on the way stops in a row whose number is too long to tell of it, or at a range
whose limit is. -/
theorem exists_of_halted (hs : s.Formed) (hnear : s.Near) (hindex : 0 ≤ e.index) (hcount : e.count ≤ 0)
    (hstop : e.stop ≤ s.lineCount e.axis) (h : (s.restructure e).answer = .error .halted) :
    ∃ (a b : Address) (c : Cell), s.cells[a]? = some c ∧ a.shift? e = some b ∧ (b.isWritable = false ∨
      c.rejection? = some .invalidRange ∧ Number.isWritable s.limits.rangeCells = false) := by
  obtain ⟨contents, hcontents⟩ := hnear.exists_movedContents hindex hcount
  -- of no cell it has to be foreseen what it is taken for
  have hforeseen : Foreseen (s.emptied e) contents (fun _ => False) (fun _ _ => False) :=
    ⟨inside_movedContents hs hindex (.inr hstop) hcontents, visible_movedContents hs hcontents,
      fun _ => False.elim, fun _ _ => False.elim⟩
  -- what is too large after a deletion was too large before
  have hsized : ∀ (a : Address) (c : Cell) text, s.cells[a]? = some c →
      Formula.shiftText e c.content = .ok text →
        (Cell.Kind.rejected .invalidRange).Fits (s.limits.edit e) text →
          (Cell.Kind.rejected .invalidRange).Fits s.limits c.content := by
    rintro a c text hc htext ⟨-, g, corners, hg, hlarge⟩
    obtain ⟨text', htext', hparse⟩ := hnear.exists_shiftText hindex hcount hc
    cases htext.symm.trans htext'
    obtain ⟨f, hf⟩ : ∃ f, Formula.parse c.content = .ok f := by
      by_contra hmalformed
      rw [Formula.shiftText_of_malformed (not_exists.mp hmalformed)] at htext
      cases htext
      exact hmalformed ⟨g, hg⟩
    cases hg.symm.trans (hparse f hf)
    rw [Limits.rangeCells_edit] at hlarge
    refine ⟨Formula.isFormulaText_of_parse hf, f, ?_⟩
    cases hsize : f.oversized? s.limits.rangeCells with
    | none =>
      rw [Formula.oversized?_shift_of_count_nonpos hcount hsize] at hlarge
      cases hlarge
    | some corners => exact ⟨corners, hf, rfl⟩
  rcases restructure_cases hcontents hforeseen with ⟨-, huntold⟩ | ⟨b, -, -, hend⟩
  · obtain ⟨a, b, c, hc, -, hab, hlong⟩ := exists_unwritable_of_untellable hs hcontents hsized huntold
    exact ⟨a, b, c, hc, hab, hlong⟩
  · exact absurd h hend.not_halted

/-- What a deletion of lines leaves of a cell, where no formula is refused for a cycle. -/
theorem restructure_deletion (hs : s.Formed) (hfree : ∀ a, ¬s.Circular a) (hnear : s.Near)
    (hindex : 0 ≤ e.index) (hcount : e.count < 0) (hstop : e.stop ≤ s.lineCount e.axis)
    (hanswer : (s.restructure e).answer ≠ .error .halted) (hc : s.cells[a]? = some c)
    (hab : a.shift? e = some b) :
    ∃ c', (s.restructure e).sheet.cells[b]? = some c' ∧
      (∀ f, Formula.parse c.content = .ok f →
        ∃ g, Formula.parse c'.content = .ok g ∧ Severed e f g) ∧
      (s.Independent e a → c'.rejection? = c.rejection? ∧
        (s.Consistent → (∀ fault, (s.restructure e).answer ≠ .error (.precision fault)) →
          c'.result = c.result)) := by
  have hle := Int.le_of_lt hcount
  have hin := hs.inside a _ (form?_of_getElem? hc)
  have he := admits_of_left hindex hcount hstop hin hab
  have hk := keeps_of_deletion hs hfree hnear hindex hle
  obtain ⟨contents, hcontents⟩ := hnear.exists_movedContents hindex hle
  obtain ⟨batch, -, hb, hend⟩ := (restructure_cases hcontents (hk.foreseen hs he hcontents)).resolve_left
    fun h => hanswer h.1
  have hlike := hend.alike (hb.staged.formed formed_of_empty)
  have hcarried := (hk.carried hs he hcontents hb).alike hlike
  obtain ⟨text, htext, hparse⟩ := hnear.exists_shiftText hindex hle hc
  obtain ⟨kind, hform⟩ := form?_of_entering hcontents hb hc hab htext
  rw [hlike.form?] at hform
  obtain ⟨c', hc', hsame⟩ := Option.map_eq_some_iff.mp hform
  obtain ⟨rfl, rfl⟩ := Prod.mk.inj hsame
  refine ⟨c', hc', fun f hf => ⟨_, hparse f hf, severed_shift e f⟩, fun hind => ?_⟩
  obtain ⟨_, -, -, hform'⟩ := hcarried.form? a b c.content c.kind ⟨⟨b, hab⟩, hind⟩ hab
    (form?_of_getElem? hc)
  rw [form?_of_getElem? hc'] at hform'
  refine ⟨Cell.Kind.rejection?_shift (Prod.mk.inj (Option.some.inj hform')).2,
    fun hconsistent hcalm => ?_⟩
  obtain ⟨d, hd, -, hresult⟩ := hcarried.result hs he hk (fun x _ => hconsistent.settled hfree x)
    (hend.settled hb hcalm) a b c ⟨⟨b, hab⟩, hind⟩ hab hc
  rw [hc'] at hd
  cases hd
  exact hresult

theorem deleteLines_eq {axis : Axis} {index count : Int} (hindex : 0 ≤ index)
    (hlast : index < s.lineCount axis) (hcount : 1 ≤ count) :
    s.deleteLines axis index count =
      s.restructure ⟨axis, index, -min count (s.lineCount axis - index)⟩ := by
  unfold deleteLines
  rw [if_neg (by omega), if_neg (by omega)]

/-- A deletion of lines from a sheet without a formula refused for a cycle, after any history, if text
can spell the columns of all references. Every cell that is left ends up in its new place, and in its
formula each reference to one deleted cell becomes an error; this is so unless something is refused in a
row whose number is too long to tell of it, or for a range whose limit is. A cell that names no deleted cell, and reads none that does,
keeps its mark. If the sheet was consistent, it shows what it showed, unless the calculation breaks off.
Nothing of the kind happens if the history with the deletion is not interrupted. -/
theorem deleteLines_run (limits : Limits) (history : List Edit) (axis : Axis) (index count : Int) :
    let s := (new limits).run history
    let e : LineEdit := ⟨axis, index, -min count (s.lineCount axis - index)⟩
    let r := s.deleteLines axis index count
    (∀ a, ¬s.Circular a) → s.Near → 0 ≤ index → index < s.lineCount axis → 1 ≤ count →
      (r.answer ≠ .error .halted →
        ∀ (a b : Address) (c : Cell), s.cells[a]? = some c → a.shift? e = some b →
          ∃ c', r.sheet.cells[b]? = some c' ∧
            (∀ f, Formula.parse c.content = .ok f →
              ∃ g, Formula.parse c'.content = .ok g ∧ Severed e f g) ∧
            (s.Independent e a → c'.rejection? = c.rejection? ∧
              (s.Consistent → (∀ fault, r.answer ≠ .error (.precision fault)) →
                c'.result = c.result))) ∧
      (∀ scope, Formula.missing.evaluate scope = .ok (.error .refMissing)) ∧
      (r.answer = .error .halted →
        ∃ (a b : Address) (c : Cell), s.cells[a]? = some c ∧ a.shift? e = some b ∧ (b.isWritable = false ∨
          c.rejection? = some .invalidRange ∧ Number.isWritable s.limits.rangeCells = false)) ∧
      ((new limits).Uninterrupted (history ++ [.deleteLines axis index count]) →
        s.Consistent ∧ r.answer ≠ .error .halted ∧ ∀ fault, r.answer ≠ .error (.precision fault)) ∧
      (limits.precision.val ≤ Number.maxPrecision →
        (∀ past, past <+: history ++ [.deleteLines axis index count] →
          Number.isWritable ((new limits).run past).limits.rows ∧ ((new limits).run past).TellsRanges) →
            (new limits).Uninterrupted (history ++ [.deleteLines axis index count])) := by
  intro s e r hfree hnear hindex hlast hcount
  have hs : s.Formed := formed_run limits history
  have hneg : e.count < 0 := by dsimp only [e]; omega
  have hstop : e.stop ≤ s.lineCount e.axis := by dsimp only [e, LineEdit.stop]; omega
  have hr : r = s.restructure e := deleteLines_eq hindex hlast hcount
  refine ⟨fun hanswer a b c hc hab => ?_, fun scope => rfl, fun hhalted => ?_, fun hcalm => ?_,
    uninterrupted_of_writable⟩
  · rw [hr] at hanswer ⊢
    exact restructure_deletion hs hfree hnear hindex hneg hstop hanswer hc hab
  · rw [hr] at hhalted
    exact exists_of_halted hs hnear hindex (Int.le_of_lt hneg) hstop hhalted
  · obtain ⟨hpast, hcalm⟩ := uninterrupted_snoc.mp hcalm
    refine ⟨consistent_of_uninterrupted hpast, fun hhalted => ?_, fun fault hbroken => ?_⟩
    · cases hcalm .halted (congrArg faultOf hhalted)
    · cases hcalm (.precision fault) (congrArg faultOf hbroken)

private def linked : List (Address × String) :=
  [(⟨0, 0⟩, "2"), (⟨2, 0⟩, "3"), (⟨0, 1⟩, "=A1*2"), (⟨0, 2⟩, "=A3")]

private def double : Formula := .binary .multiply (.cell ⟨0, 0⟩) (.constant (.number (.int 2)))

private theorem holds_linked : ∀ item ∈ linked, standard.Holds item.1 := by
  simp [linked, Limits.Holds, standard]

private theorem parse_link : Formula.parse "=A3" = .ok (.cell ⟨2, 0⟩) :=
  eq_ok_of_toOption (by decide +kernel)

private theorem parse_linked {content : String} {f : Formula} (hmem : (a, content) ∈ linked)
    (hf : Formula.parse content = .ok f) :
    a = ⟨0, 1⟩ ∧ f = double ∨ a = ⟨0, 2⟩ ∧ f = .cell ⟨2, 0⟩ := by
  have hdouble : Formula.parse "=A1*2" = .ok double := eq_ok_of_toOption (by decide +kernel)
  have hformula := Formula.isFormulaText_of_parse hf
  simp only [linked, List.mem_cons, Prod.mk.injEq, List.not_mem_nil, or_false] at hmem
  rcases hmem with ⟨-, rfl⟩ | ⟨-, rfl⟩ | ⟨rfl, rfl⟩ | ⟨rfl, rfl⟩
  · exact absurd hformula (by decide)
  · exact absurd hformula (by decide)
  · rw [hdouble] at hf
    exact .inl ⟨rfl, (Except.ok.inj hf).symm⟩
  · rw [parse_link] at hf
    exact .inr ⟨rfl, (Except.ok.inj hf).symm⟩

private theorem names_linked {content : String} {f : Formula} (hmem : (a, content) ∈ linked)
    (hf : Formula.parse content = .ok f) (hx : f.Names x) :
    a = ⟨0, 1⟩ ∧ x = ⟨0, 0⟩ ∨ a = ⟨0, 2⟩ ∧ x = ⟨2, 0⟩ := by
  rcases parse_linked hmem hf with ⟨rfl, rfl⟩ | ⟨rfl, rfl⟩
  · exact .inl ⟨rfl,
      by simpa [double, Formula.Names, Formula.references, Formula.Reference.Names] using hx⟩
  · exact .inr ⟨rfl, by simpa [Formula.Names, Formula.references, Formula.Reference.Names] using hx⟩

private theorem not_circular_linked : ∀ a, ¬((new standard).run (setEach linked)).Circular a :=
  not_circular_of_names holds_linked (by decide +kernel) (by decide +kernel)

private theorem near_linked : ((new standard).run (setEach linked)).Near := by
  intro a c f hc hf r hr
  have hspellable : r.Spellable := by
    rcases parse_linked (mem_of_setEach holds_linked hc) hf with ⟨-, rfl⟩ | ⟨-, rfl⟩
    · revert r
      decide +kernel
    · revert r
      decide +kernel
  exact hspellable.near

/-- What the product reads is a constant, and none of the two names a cell of the third row. -/
private theorem independent_linked :
    ((new standard).run (setEach linked)).Independent ⟨.row, 2, -min 1 (1048576 - 2)⟩ ⟨0, 1⟩ := by
  have hway : ∀ x, Relation.ReflTransGen ((new standard).run (setEach linked)).graph.Reads ⟨0, 1⟩ x →
      x = ⟨0, 1⟩ ∨ x = ⟨0, 0⟩ := by
    intro x hx
    induction hx with
    | refl => exact .inl rfl
    | @tail x y _ hxy ih =>
      obtain ⟨content, f, hmem, hf, hy⟩ :=
        names_of_reads_setEach holds_linked (not_circular_linked x) hxy
      rcases names_linked hmem hf hy with ⟨-, rfl⟩ | ⟨rfl, -⟩
      · exact .inr rfl
      · rcases ih with ih | ih <;> cases ih
  intro x hx c f hc hf y hy
  rcases names_linked (mem_of_setEach holds_linked hc) hf hy with ⟨-, rfl⟩ | ⟨rfl, -⟩
  · exact ⟨_, rfl⟩
  · rcases hway _ hx with hx | hx <;> cases hx

/-- Of two formulas one names a cell in the deleted row. -/
theorem deleteLines_reference :
    let s := (new standard).run
      (setEach [(⟨0, 0⟩, "2"), (⟨2, 0⟩, "3"), (⟨0, 1⟩, "=A1*2"), (⟨0, 2⟩, "=A3")])
    let r := s.deleteLines .row 2 1
    (∃ c c', s.cells[(⟨0, 1⟩ : Address)]? = some c ∧ r.sheet.cells[(⟨0, 1⟩ : Address)]? = some c' ∧
      c'.result = c.result) ∧
    ∃ c', r.sheet.cells[(⟨0, 2⟩ : Address)]? = some c' ∧ Formula.parse c'.content = .ok .missing := by
  rw [← show linked = [(⟨0, 0⟩, "2"), (⟨2, 0⟩, "3"), (⟨0, 1⟩, "=A1*2"), (⟨0, 2⟩, "=A3")] from rfl]
  intro s r
  have hs : s.Formed := formed_run standard _
  have hlimits : ((new standard).run (setEach linked)).limits = standard :=
    limits_setEach formed_of_empty linked
  have hlines : ((new standard).run (setEach linked)).lineCount .row = 1048576 := by
    rw [lineCount, hlimits]
    rfl
  have hlast : 2 < ((new standard).run (setEach linked)).lineCount .row := by
    rw [hlines]
    decide
  obtain ⟨hcells, -, -, -, -⟩ := deleteLines_run standard (setEach linked) .row 2 1
    not_circular_linked near_linked (by decide) hlast (by decide)
  have hcalm : ∀ f, faultOf r.answer = some f → f.interrupts = false := by
    have hr : r = s.restructure ⟨.row, 2, -1⟩ := by
      have heq := deleteLines_eq (by decide) hlast (Int.le_refl 1)
      rwa [hlines] at heq
    rw [hr]
    refine restructure_calm hs (bounded_run standard _) (by decide) (.inr ?_) ?_ ?_ ?_ ?_
    · exact Int.le_trans (by decide) (Int.le_of_eq hlines.symm)
    all_goals
      rw [hlimits]
      decide +kernel
  have hcells := hcells fun hhalted => by cases hcalm .halted (congrArg faultOf hhalted)
  rw [hlines] at hcells
  obtain ⟨c, hc, hcontent⟩ := exists_of_setEach holds_linked ⟨0, 1⟩ "=A1*2" (by decide +kernel)
  obtain ⟨d, hd, hdcontent⟩ := exists_of_setEach holds_linked ⟨0, 2⟩ "=A3" (by decide +kernel)
  obtain ⟨c', hc', -, hvalue⟩ := hcells ⟨0, 1⟩ ⟨0, 1⟩ c hc rfl
  obtain ⟨d', hd', hsevered, -⟩ := hcells ⟨0, 2⟩ ⟨0, 2⟩ d hd rfl
  refine ⟨⟨c, c', hc, hc', ?_⟩, d', hd', ?_⟩
  · refine (hvalue independent_linked).2 (consistent_of_uninterrupted ?_) fun fault hbroken => ?_
    · exact uninterrupted_setEach formed_of_empty (bounded_new _) (by decide +kernel) (by decide +kernel)
        fun _ => by decide +kernel
    · cases hcalm (.precision fault) (congrArg faultOf hbroken)
  · obtain ⟨g, hg, -, hmissing⟩ := hsevered _ (hdcontent ▸ parse_link)
    rw [hg]
    exact congrArg _ (Option.some.inj (hmissing [] ⟨2, 0⟩ rfl rfl))

end Spreadsheet.Sheet
