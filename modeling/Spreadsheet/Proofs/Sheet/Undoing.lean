import Spreadsheet.Proofs.Formula.Straightening
import Spreadsheet.Proofs.Sheet.Deletion
import Spreadsheet.Proofs.Sheet.Insertion

/-! Insertions of lines that are undone by deleting the lines. In between a range may have grown too large,
so that its formula is refused; the deletion makes it what it was. All cells come back, with their
contents but for the order of corners, and with their edges, and a consistent sheet shows in the end what
it showed. -/
namespace Spreadsheet

/-! ## Texts -/

namespace Formula

variable {e : LineEdit} {s : String} {f : Formula}

/-- A formula whose moved references text can spell is rewritten and rewritten back. -/
theorem exists_shiftText_undo (he : 0 < e.count) (hindex : 0 ≤ e.index) (h : parse s = .ok f)
    (hspelled : ∀ r ∈ (f.shift e).references, ¬r.IsFar ∧ r.isWritable) :
    ∃ t, shiftText e s = .ok t ∧ parse t = .ok (f.shift e) ∧
      shiftText e.undo t = .ok (respell e s) ∧ parse (respell e s) = .ok (f.straighten e) := by
  obtain ⟨t, ht, hparse⟩ := exists_shiftText hindex h fun _ => spellable_shift hindex h hspelled
  obtain ⟨t', ht', hparse'⟩ := exists_shiftText (e := e.undo) hindex hparse fun _ =>
    spellable_shift_of_count_nonpos (e := e.undo) hindex (by unfold LineEdit.undo; dsimp only; omega)
      hparse fun r hr => (hspelled r hr).1
  have hsame : t' = respell e s := by
    rw [shiftText_eq h] at ht
    rw [shiftText_eq hparse, shift_undo he] at ht'
    unfold respell
    rw [h]
    dsimp only
    split at ht
    · rename_i hstays
      cases ht
      rw [hstays, straighten_eq_self he hstays, if_pos rfl] at ht'
      cases ht'
      rw [if_pos hstays]
    · rename_i hmoves
      rw [if_neg hmoves]
      split at ht
      · cases ht
        split at ht'
        · rename_i hstraight
          cases ht'
          rw [hstraight]
        · split at ht'
          · cases ht'
            rfl
          · cases ht'
      · cases ht
  rw [shift_undo he] at hparse'
  exact ⟨t, ht, hparse, hsame ▸ ht', hsame ▸ hparse'⟩

theorem respell_of_malformed (h : ∀ f, parse s ≠ .ok f) : respell e s = s := by
  unfold respell
  split
  · rename_i f hf
    exact absurd hf (h f)
  · rfl

end Formula

/-! ## Kinds -/

namespace Cell.Kind

variable {e : LineEdit} {l : Limits} {content : String} {kind : Kind}

/-- What a content is taken for after an insertion, which can make a range too large. -/
def grow (l : Limits) (e : LineEdit) : Kind → Kind
  | .formula f =>
    if (f.shift e).oversized? l.rangeCells = none then .formula (f.shift e)
    else .rejected .invalidRange
  | kind => kind

/-- What a content is taken for after an insertion that was undone. -/
def straighten (e : LineEdit) : Kind → Kind
  | .formula f => .formula (f.straighten e)
  | kind => kind

theorem grow_ne_cycle (h : kind ≠ .rejected .cycle) : kind.grow l e ≠ .rejected .cycle := by
  cases kind with
  | constant => simp [grow]
  | formula f =>
    unfold grow
    dsimp only
    split <;> simp
  | rejected reason => exact h

theorem straighten_ne_cycle (h : kind ≠ .rejected .cycle) : kind.straighten e ≠ .rejected .cycle := by
  cases kind with
  | constant => simp [straighten]
  | formula f => simp [straighten]
  | rejected reason => exact h

theorem rejection?_straighten {c c' : Cell} (h : c'.kind = c.kind.straighten e) :
    c'.rejection? = c.rejection? := by
  unfold rejection?
  rw [h]
  cases c.kind <;> rfl

theorem formula?_straighten {c c' : Cell} (h : c'.kind = c.kind.straighten e) :
    c'.formula? = c.formula?.map (Formula.straighten e) := by
  unfold formula?
  rw [h]
  cases c.kind <;> rfl

theorem reads?_straighten (b : Bounds) : (kind.straighten e).reads? b = kind.reads? b := by
  cases kind with
  | formula f =>
    refine congrArg some (Std.ExtTreeSet.ext_mem fun a => ?_)
    rw [Formula.mem_addresses, Formula.mem_addresses, Formula.names_straighten_iff]
  | _ => rfl

/-- A content that no formula is read from is never rewritten. -/
theorem Fits.malformed (h : kind.Fits l content) (hkind : kind = .constant ∨ kind = .rejected .malformed) :
    ∀ f, Formula.parse content ≠ .ok f := by
  intro f hf
  rcases hkind with rfl | rfl
  · have hformula := Formula.isFormulaText_of_parse hf
    rw [show Formula.isFormulaText content = false from h] at hformula
    cases hformula
  · obtain ⟨-, error, herror⟩ := h
    rw [herror] at hf
    cases hf

/-- What an insertion and the deletion after it make of a content. -/
theorem Fits.undo (h : kind.Fits l content) (hcycle : kind ≠ .rejected .cycle) (he : 0 < e.count)
    (hindex : 0 ≤ e.index) (hspelled : ∀ f, Formula.parse content = .ok f →
      ∀ r ∈ (f.shift e).references, ¬r.IsFar ∧ r.isWritable) :
    ∃ text, Formula.shiftText e content = .ok text ∧ (kind.grow l e).Fits (l.edit e) text ∧
      Formula.shiftText e.undo text = .ok (Formula.respell e content) ∧
        (kind.straighten e).Fits l (Formula.respell e content) := by
  have hstays : (∀ f, Formula.parse content ≠ .ok f) →
      Formula.shiftText e content = .ok content ∧
        Formula.shiftText e.undo content = .ok (Formula.respell e content) ∧
          Formula.respell e content = content := by
    intro hmalformed
    have hsame := Formula.respell_of_malformed (e := e) hmalformed
    exact ⟨Formula.shiftText_of_malformed hmalformed,
      hsame.symm ▸ Formula.shiftText_of_malformed hmalformed, hsame⟩
  have hmoves := fun f (hf : Formula.parse content = .ok f) =>
    Formula.exists_shiftText_undo he hindex hf (hspelled f hf)
  cases kind with
  | constant =>
    obtain ⟨htext, hback, hsame⟩ := hstays (h.malformed (.inl rfl))
    exact ⟨content, htext, h, hback, hsame.symm ▸ h⟩
  | formula f =>
    obtain ⟨-, hparse, hsize⟩ := h
    obtain ⟨text, htext, hparse', hback, hstraight⟩ := hmoves f hparse
    refine ⟨text, htext, ?_, hback, Formula.isFormulaText_of_parse hstraight, hstraight,
      Formula.oversized?_straighten.mpr hsize⟩
    unfold grow
    dsimp only
    split
    · rename_i hsmall
      exact ⟨Formula.isFormulaText_of_parse hparse', hparse', Limits.rangeCells_edit.symm ▸ hsmall⟩
    · rename_i hlarge
      obtain ⟨corners, hcorners⟩ := Option.ne_none_iff_exists'.mp hlarge
      exact ⟨Formula.isFormulaText_of_parse hparse', f.shift e, corners, hparse',
        Limits.rangeCells_edit.symm ▸ hcorners⟩
  | rejected reason =>
    cases reason with
    | malformed =>
      obtain ⟨htext, hback, hsame⟩ := hstays (h.malformed (.inr rfl))
      exact ⟨content, htext, h, hback, hsame.symm ▸ h⟩
    | invalidRange =>
      obtain ⟨-, f, corners, hparse, hlarge⟩ := h
      obtain ⟨text, htext, hparse', hback, hstraight⟩ := hmoves f hparse
      have hleft := fun a (_ : f.Names a) => Address.exists_shift?_eq_some (e := e) (Int.le_of_lt he) a
      obtain ⟨grown, hgrown⟩ : ∃ grown, (f.shift e).oversized? (l.edit e).rangeCells = some grown := by
        rw [← Option.ne_none_iff_exists', Limits.rangeCells_edit]
        intro hsmall
        rw [Formula.oversized?_of_shift hleft hsmall] at hlarge
        cases hlarge
      obtain ⟨straight, hstraightened⟩ : ∃ straight,
          (f.straighten e).oversized? l.rangeCells = some straight := by
        rw [← Option.ne_none_iff_exists', ne_eq, Formula.oversized?_straighten, hlarge]
        simp
      exact ⟨text, htext, ⟨Formula.isFormulaText_of_parse hparse', f.shift e, grown, hparse', hgrown⟩,
        hback, Formula.isFormulaText_of_parse hstraight, f.straighten e, straight, hstraight, hstraightened⟩
    | cycle => exact absurd rfl hcycle
    | _ => exact h.elim

end Cell.Kind

theorem LineEdit.resize_undo {e : LineEdit} (he : 0 < e.count) (lines : Positive) :
    e.undo.resize (e.resize lines) = lines := by
  obtain ⟨n, hn⟩ := lines
  unfold resize undo
  simp only [Subtype.mk.injEq]
  omega

theorem Limits.edit_undo {e : LineEdit} (he : 0 < e.count) (l : Limits) :
    (l.edit e).edit e.undo = l := by
  unfold edit
  cases haxis : e.axis with
  | row =>
    simp only [show e.undo.axis = .row from haxis]
    rw [LineEdit.resize_undo he]
  | col =>
    simp only [show e.undo.axis = .col from haxis]
    rw [LineEdit.resize_undo he]

namespace Sheet

variable {s t u : Sheet} {e : LineEdit} {a b : Address} {c c' : Cell} {contents : AddressMap String}

/-- Whether lines are inserted into a sheet in such a way that the insertion can be undone: no cell is
refused for a cycle, and text can spell all moved references. -/
structure Undoable (s : Sheet) (e : LineEdit) : Prop where
  formed : s.Formed
  admits : s.Admits e
  inserts : 0 < e.count
  free : ∀ a, ¬s.Circular a
  spelled : ∀ (a : Address) (c : Cell) f, s.cells[a]? = some c → Formula.parse c.content = .ok f →
    ∀ r ∈ (f.shift e).references, ¬r.IsFar ∧ r.isWritable

/-- A sheet after an insertion of lines, in which a range may have grown too large. -/
structure Grown (s t : Sheet) (e : LineEdit) : Prop where
  formed : t.Formed
  limits : t.limits = s.limits.edit e
  form? : ∀ b text kind, t.form? b = some (text, kind) ↔ ∃ (a : Address) (c : Cell),
    s.cells[a]? = some c ∧ a.shift? e = some b ∧ Formula.shiftText e c.content = .ok text ∧
      kind = c.kind.grow s.limits e
  tellable : t.Tellable

/-- A sheet after an insertion of lines was undone, but for its values. -/
structure Restored (s u : Sheet) (e : LineEdit) : Prop where
  formed : u.Formed
  limits : u.limits = s.limits
  form? : ∀ a, u.form? a = (s.form? a).map fun (content, kind) =>
    (Formula.respell e content, kind.straighten e)

/-- Whether a formula is refused where it ends up and a number is too long to tell of it: that of its row
there, or the limit for ranges if one is too large or becomes so. -/
def GrowsUntold (s : Sheet) (e : LineEdit) : Prop :=
  ∃ (a b : Address) (c : Cell) (reason : ErrorKind), s.cells[a]? = some c ∧ a.shift? e = some b ∧
    c.kind.grow s.limits e = .rejected reason ∧ s.limits.tells b reason = false

/-! ## The insertion -/

namespace Undoable

theorem ne_cycle (h : s.Undoable e) (hc : s.cells[a]? = some c) : c.kind ≠ .rejected .cycle :=
  ne_cycle_of_form? (h.free a) (form?_of_getElem? hc)

theorem fits (h : s.Undoable e) (hc : s.cells[a]? = some c) :
    ∃ text, Formula.shiftText e c.content = .ok text ∧
      (c.kind.grow s.limits e).Fits (s.limits.edit e) text ∧
        Formula.shiftText e.undo text = .ok (Formula.respell e c.content) ∧
          (c.kind.straighten e).Fits s.limits (Formula.respell e c.content) :=
  (h.formed.fits a _ (form?_of_getElem? hc)).undo (h.ne_cycle hc) h.inserts h.admits.index_nonneg
    fun f hf => h.spelled a c f hc hf

/-- Whatever the insertion makes of a content, the deletion makes the straightened content of. -/
theorem fits_text (h : s.Undoable e) (hc : s.cells[a]? = some c) {text : String}
    (htext : Formula.shiftText e c.content = .ok text) :
    (c.kind.grow s.limits e).Fits (s.limits.edit e) text ∧
      Formula.shiftText e.undo text = .ok (Formula.respell e c.content) := by
  obtain ⟨text', htext', hfits, hback, -⟩ := h.fits hc
  cases htext.symm.trans htext'
  exact ⟨hfits, hback⟩

theorem exists_movedContents (h : s.Undoable e) : ∃ contents, s.movedContents e = .ok contents :=
  Sheet.exists_movedContents fun _ _ hc _ => by
    obtain ⟨text, htext, -⟩ := h.fits hc
    exact ⟨text, htext⟩

theorem foreseen (h : s.Undoable e) (hcontents : s.movedContents e = .ok contents) :
    Foreseen (s.emptied e) contents (fun _ => True) (s.Leads e) := by
  refine ⟨inside_movedContents h.formed h.admits.index_nonneg h.admits.last hcontents,
    visible_movedContents h.formed hcontents, fun b _ => acyclic_leads h.formed b,
    fun b content _ hcontent => ?_⟩
  obtain ⟨a, c, hc, ha, htext⟩ := (getElem?_movedContents hcontents).mp hcontent
  have hkind := h.ne_cycle hc
  refine ⟨_, (h.fits_text hc htext).1, Cell.Kind.grow_ne_cycle hkind,
    fun targets htargets y hy => ⟨trivial, a, ha, ?_⟩⟩
  by_cases hinserted : e.Inserts (e.axis.position y)
  · exact .inl hinserted
  · obtain ⟨x, hx⟩ := Address.exists_shift?.mpr hinserted
    refine .inr ⟨x, ?_, hx⟩
    obtain ⟨g, hg, hin, hnames⟩ := (Cell.Kind.mem_reads? htargets).mp hy
    rw [h.formed.reads_iff (form?_of_getElem? hc) hkind]
    unfold Cell.Kind.grow at hg
    split at hg
    · rename_i f hf
      split at hg
      · cases hg
        exact ⟨f, hf, (h.admits.contains_iff hx).mp hin, (Formula.names_shift_iff hx).mp hnames⟩
      · cases hg
    · rename_i hformula
      exact absurd hg (hformula g)

theorem grown_of_entering (h : s.Undoable e) (hcontents : s.movedContents e = .ok contents)
    {batch : Batch} (hb : Entering (s.emptied e) contents (fun _ => True) [] batch) :
    Grown s batch.sheet e where
  formed := hb.staged.formed formed_of_empty
  limits := hb.staged.limits
  tellable := hb.staged.tellable (tellable_of_empty rfl)
  form? b text kind := by
    have hkind : ∀ {a : Address} {c : Cell} {text : String} {kind : Cell.Kind}, s.cells[a]? = some c →
        Formula.shiftText e c.content = .ok text → batch.sheet.form? b = some (text, kind) →
          kind = c.kind.grow s.limits e := by
      intro a c text kind hc htext hform
      exact hb.kind_unique formed_of_empty trivial hform (h.fits_text hc htext).1
        (Cell.Kind.grow_ne_cycle (h.ne_cycle hc))
    constructor
    · intro hform
      obtain ⟨a, c, hc, hab, htext⟩ := exists_of_entering hcontents hb hform
      exact ⟨a, c, hc, hab, htext, hkind hc htext hform⟩
    · rintro ⟨a, c, hc, hab, htext, rfl⟩
      obtain ⟨kind, hform⟩ := form?_of_entering hcontents hb hc hab htext
      rwa [← hkind hc htext hform]

theorem growsUntold (h : s.Undoable e) (hcontents : s.movedContents e = .ok contents)
    (huntold : (s.emptied e).Untellable contents fun _ => True) : s.GrowsUntold e := by
  obtain ⟨b, text, reason, hb, hfits, hlong, hcycle⟩ := huntold
  obtain ⟨a, c, hc, hab, htext⟩ := (getElem?_movedContents hcontents).mp hb
  have hfits' := (h.fits_text hc htext).1
  have hreason : Cell.Kind.rejected reason ≠ .rejected .cycle := fun heq =>
    hcycle trivial (Cell.Kind.rejected.inj heq)
  have hsame := hfits.unique hfits' hreason (Cell.Kind.grow_ne_cycle (h.ne_cycle hc))
  exact ⟨a, b, c, reason, hc, hab, hsame.symm, Limits.tells_edit.symm.trans hlong⟩

end Undoable

theorem Grown.alike (h : Grown s t e) (htu : Alike t u) : Grown s u e where
  formed := htu.formed h.formed
  limits := htu.limits ▸ h.limits
  form? b text kind := by rw [← htu.form?, h.form?]
  tellable := htu.tellable h.tellable

theorem Grown.not_growsUntold (h : Grown s t e) (hs : s.Undoable e) : ¬s.GrowsUntold e := by
  rintro ⟨a, b, c, reason, hc, hab, hkind, hlong⟩
  obtain ⟨text, htext, -⟩ := hs.fits hc
  have hform := (h.form? b text _).mpr ⟨a, c, hc, hab, htext, rfl⟩
  rw [hkind] at hform
  have htold := tellable_iff.mp h.tellable b text reason hform
  rw [h.limits, Limits.tells_edit, hlong] at htold
  cases htold

/-- An insertion enters all cells, unless a formula that is refused cannot be told of. -/
theorem Undoable.restructure_cases (h : s.Undoable e) :
    ((s.restructure e).answer = .error .halted ∧ s.GrowsUntold e) ∨
      ((s.restructure e).answer ≠ .error .halted ∧ ¬s.GrowsUntold e) ∧
        Grown s (s.restructure e).sheet e := by
  obtain ⟨contents, hcontents⟩ := h.exists_movedContents
  rcases Sheet.restructure_cases hcontents (h.foreseen hcontents) with
    ⟨hhalted, huntold⟩ | ⟨batch, -, hb, hend⟩
  · exact .inl ⟨hhalted, h.growsUntold hcontents huntold⟩
  · have hgrown := h.grown_of_entering hcontents hb
    have hgrown' := hgrown.alike (hend.alike hgrown.formed)
    exact .inr ⟨⟨hend.not_halted, hgrown'.not_growsUntold h⟩, hgrown'⟩

/-! ## The deletion -/

namespace Grown

theorem exists_movedContents (h : Grown s t e) (hs : s.Undoable e) :
    ∃ contents, t.movedContents e.undo = .ok contents := by
  refine Sheet.exists_movedContents fun b d hd _ => ?_
  obtain ⟨a, c, hc, -, htext, -⟩ := (h.form? b _ _).mp (form?_of_getElem? hd)
  exact ⟨_, (hs.fits_text hc htext).2⟩

/-- The contents that the deletion enters. -/
theorem getElem?_movedContents (h : Grown s t e) (hs : s.Undoable e)
    (hcontents : t.movedContents e.undo = .ok contents) {text : String} :
    contents[a]? = some text ↔ ∃ c : Cell, s.cells[a]? = some c ∧ text = Formula.respell e c.content := by
  rw [Sheet.getElem?_movedContents hcontents]
  constructor
  · rintro ⟨b, d, hd, hba, hback⟩
    obtain ⟨a', c, hc, hab, htext, -⟩ := (h.form? b _ _).mp (form?_of_getElem? hd)
    obtain rfl := Address.shift?_injective hab ((Address.shift?_undo hs.inserts).mp hba)
    exact ⟨c, hc, Except.ok.inj (hback.symm.trans (hs.fits_text hc htext).2)⟩
  · rintro ⟨c, hc, rfl⟩
    obtain ⟨b, hab⟩ := Address.exists_shift?_eq_some (Int.le_of_lt hs.inserts) a
    obtain ⟨text, htext, -, hback, -⟩ := hs.fits hc
    obtain ⟨d, hd, hsame⟩ := Option.map_eq_some_iff.mp ((h.form? b text _).mpr ⟨a, c, hc, hab, htext, rfl⟩)
    obtain ⟨rfl, -⟩ := Prod.mk.inj hsame
    exact ⟨b, d, hd, (Address.shift?_undo hs.inserts).mpr hab, hback⟩

/-- What the deletion goes back to. -/
theorem limits_emptied (h : Grown s t e) (hs : s.Undoable e) : (t.emptied e.undo).limits = s.limits := by
  unfold emptied
  dsimp only
  rw [h.limits, Limits.edit_undo hs.inserts]

theorem stop_undo_le (h : Grown s t e) (hs : s.Undoable e) :
    e.undo.stop ≤ t.lineCount e.undo.axis := by
  have hlines : t.lineCount e.axis = s.lineCount e.axis + e.count := by
    rw [← hs.admits.lineCount]
    unfold lineCount
    rw [h.limits]
    rfl
  have hindex := hs.admits.index_le
  unfold LineEdit.undo LineEdit.stop
  dsimp only
  omega

theorem foreseen (h : Grown s t e) (hs : s.Undoable e)
    (hcontents : t.movedContents e.undo = .ok contents) :
    Foreseen (t.emptied e.undo) contents (fun _ => True) s.graph.Reads := by
  refine ⟨inside_movedContents (e := e.undo) h.formed hs.admits.index_nonneg
      (.inr (h.stop_undo_le hs)) hcontents, visible_movedContents h.formed hcontents,
    fun a _ => hs.formed.acyclic a, fun a content _ hcontent => ?_⟩
  obtain ⟨c, hc, rfl⟩ := (h.getElem?_movedContents hs hcontents).mp hcontent
  obtain ⟨-, -, -, -, hfits⟩ := hs.fits hc
  have hkind := hs.ne_cycle hc
  refine ⟨c.kind.straighten e, (h.limits_emptied hs).symm ▸ hfits, Cell.Kind.straighten_ne_cycle hkind,
    fun targets htargets b hb => ⟨trivial, ?_⟩⟩
  rw [Cell.Kind.reads?_straighten] at htargets
  have hbounds : (t.emptied e.undo).bounds = s.bounds := by
    unfold bounds
    rw [h.limits_emptied hs]
  rwa [Graph.Reads, hs.formed.reads a targets (by rw [form?_of_getElem? hc, ← hbounds]; exact htargets)]

theorem restored_of_entering (h : Grown s t e) (hs : s.Undoable e)
    (hcontents : t.movedContents e.undo = .ok contents) {batch : Batch}
    (hb : Entering (t.emptied e.undo) contents (fun _ => True) [] batch) : Restored s batch.sheet e where
  formed := hb.staged.formed formed_of_empty
  limits := hb.staged.limits.trans (h.limits_emptied hs)
  form? a := by
    have hcontent := hb.content a
    rw [if_neg (by simp)] at hcontent
    cases hc : s.cells[a]? with
    | none =>
      have hvacant : contents[a]? = none := by
        rw [Option.eq_none_iff_forall_ne_some]
        intro text htext
        obtain ⟨c, hc', -⟩ := (h.getElem?_movedContents hs hcontents).mp htext
        rw [hc] at hc'
        cases hc'
      rw [hvacant, Option.map_eq_none_iff] at hcontent
      rw [hcontent, Sheet.form?, hc]
      rfl
    | some c =>
      rw [(h.getElem?_movedContents hs hcontents).mpr ⟨c, hc, rfl⟩] at hcontent
      obtain ⟨⟨text, kind⟩, hform, rfl⟩ := Option.map_eq_some_iff.mp hcontent
      obtain ⟨-, -, -, -, hfits⟩ := hs.fits hc
      rw [hform, form?_of_getElem? hc, Option.map_some, hb.kind_unique formed_of_empty trivial hform
        ((h.limits_emptied hs).symm ▸ hfits) (Cell.Kind.straighten_ne_cycle (hs.ne_cycle hc))]

/-- Whatever the deletion refuses was refused by the insertion, for the same reason and in a row that is
not before it. -/
theorem not_untellable (h : Grown s t e) (hs : s.Undoable e)
    (hcontents : t.movedContents e.undo = .ok contents) :
    ¬(t.emptied e.undo).Untellable contents fun _ => True := by
  rintro ⟨a, text, reason, hcontent, hfits, hlong, hcycle⟩
  obtain ⟨c, hc, rfl⟩ := (h.getElem?_movedContents hs hcontents).mp hcontent
  obtain ⟨text, htext, -, -, hfits'⟩ := hs.fits hc
  have hkind : Cell.Kind.rejected reason = c.kind.straighten e :=
    ((h.limits_emptied hs) ▸ hfits).unique hfits' (fun heq => hcycle trivial (Cell.Kind.rejected.inj heq))
      (Cell.Kind.straighten_ne_cycle (hs.ne_cycle hc))
  obtain ⟨b, hab⟩ := Address.exists_shift?_eq_some (Int.le_of_lt hs.inserts) a
  have hform := (h.form? b text _).mpr ⟨a, c, hc, hab, htext, rfl⟩
  have hgrown : c.kind.grow s.limits e = .rejected reason := by
    cases hck : c.kind with
    | constant =>
      rw [hck] at hkind
      cases hkind
    | formula f =>
      rw [hck] at hkind
      cases hkind
    | rejected reason' =>
      rw [hck] at hkind
      exact hkind.symm
  rw [hgrown] at hform
  have htold := tellable_iff.mp h.tellable b text reason hform
  rw [h.limits, Limits.tells_edit] at htold
  rw [h.limits_emptied hs] at hlong
  rcases Limits.tells_eq_false.mp hlong with hrow | hrange
  · have hinserts := hs.inserts
    have hle := (Address.shift?_le (e := e.undo) (by unfold LineEdit.undo; dsimp only; omega)
      ((Address.shift?_undo hinserts).mpr hab)).1
    have hnat := (holds_iff.mp (hs.formed.inside a _ (form?_of_getElem? hc))).1.1
    have hwritable := Limits.isWritable_of_tells htold
    unfold Address.isWritable at hwritable hrow
    rw [isWritable_of_le (by omega) (show a.row + 1 ≤ b.row + 1 by omega) hwritable] at hrow
    exact Bool.false_ne_true hrow.symm
  · exact Bool.false_ne_true ((Limits.tells_eq_false.mpr (.inr hrange)).symm.trans htold)

end Grown

/-! ## Values -/

/-- A sheet in which each cell shows what it shows in another one. -/
def recalling (u s : Sheet) : Sheet :=
  { u with cells := u.cells.map fun a c =>
      { c with result := (s.cells[a]?.map Cell.result).getD c.result } }

theorem alike_recalling (u s : Sheet) : Alike (u.recalling s) u where
  limits := rfl
  graph := rfl
  form? a := by
    unfold Sheet.form? recalling
    rw [Std.ExtTreeMap.getElem?_map, Option.map_map]
    rfl

namespace Restored

theorem alike (h : Restored s t e) (htu : Alike t u) : Restored s u e where
  formed := htu.formed h.formed
  limits := htu.limits ▸ h.limits
  form? a := by rw [← htu.form?, h.form?]

theorem mem_cells (h : Restored s u e) : a ∈ u.cells ↔ a ∈ s.cells := by
  rw [← Decidable.not_iff_not, ← form?_eq_none, ← form?_eq_none, h.form?, Option.map_eq_none_iff]

theorem exists_cell (h : Restored s u e) (hc : s.cells[a]? = some c) :
    ∃ c', u.cells[a]? = some c' ∧ c'.content = Formula.respell e c.content ∧
      c'.kind = c.kind.straighten e := by
  have hform := h.form? a
  rw [form?_of_getElem? hc, Option.map_some] at hform
  obtain ⟨c', hc', hsame⟩ := Option.map_eq_some_iff.mp hform
  exact ⟨c', hc', (Prod.mk.inj hsame).1, (Prod.mk.inj hsame).2⟩

theorem graph (h : Restored s u e) (hs : s.Undoable e) : u.graph = s.graph := by
  refine h.formed.sound.ext hs.formed.sound fun a => ?_
  have hbounds : u.bounds = s.bounds := by
    unfold bounds
    rw [h.limits]
  have hsame : formReads? u.bounds (u.form? a) = formReads? s.bounds (s.form? a) := by
    rw [h.form?, hbounds]
    cases s.form? a with
    | none => rfl
    | some form => exact Cell.Kind.reads?_straighten _
  obtain ⟨targets, htargets⟩ : ∃ targets, formReads? s.bounds (s.form? a) = some targets := by
    cases hform : s.form? a with
    | none => exact ⟨∅, rfl⟩
    | some form => exact Cell.Kind.exists_reads? (ne_cycle_of_form? (hs.free a) hform)
  rw [hs.formed.reads a targets htargets, h.formed.reads a targets (hsame.trans htargets)]

/-- Where all cells show what they showed, formulas see what they saw. -/
theorem scope (h : Restored s u e) (hsame : ∀ (a : Address) (c : Cell), s.cells[a]? = some c →
    ∃ c', u.cells[a]? = some c' ∧ c'.result = c.result) : u.scope = s.scope := by
  have hseen : u.seen = s.seen := by
    funext a
    unfold seen
    cases hc : s.cells[a]? with
    | none =>
      have hvacant : a ∉ u.cells := by
        rw [h.mem_cells, Std.ExtTreeMap.mem_iff_isSome_getElem?, hc]
        simp
      rw [Std.ExtTreeMap.getElem?_eq_none hvacant]
    | some c =>
      obtain ⟨c', hc', hresult⟩ := hsame a c hc
      rw [hc', Option.bind_some, Option.bind_some, hresult]
  unfold Sheet.scope bounds precision
  rw [hseen, h.limits]

theorem valueOf (h : Restored s u e) (hs : s.Formed) (hscope : u.scope = s.scope)
    (hc : s.cells[a]? = some c) (hc' : u.cells[a]? = some c') : u.valueOf c' = s.valueOf c := by
  obtain ⟨d, hd, hcontent, hkind⟩ := h.exists_cell hc
  rw [hc'] at hd
  cases hd
  unfold Sheet.valueOf
  rw [hcontent, hkind, hscope]
  cases hck : c.kind with
  | constant =>
    have hfits := hs.fits a _ (form?_of_getElem? hc)
    rw [Formula.respell_of_malformed (hfits.malformed (.inl hck))]
    rfl
  | formula f => exact Formula.evaluate_straighten s.scope f
  | rejected reason => rfl

theorem exists_recalling (h : Restored s u e) (hc : s.cells[a]? = some c) :
    ∃ c', (u.recalling s).cells[a]? = some c' ∧ c'.result = c.result := by
  obtain ⟨d, hd, -⟩ := h.exists_cell hc
  unfold recalling
  rw [Std.ExtTreeMap.getElem?_map, hd]
  exact ⟨_, rfl, by rw [hc]; rfl⟩

/-- What a settled sheet shows is settled in the sheet that is restored. -/
theorem settled_recalling (h : Restored s u e) (hs : s.Formed) (hsettled : ∀ a, s.Settled a)
    (a : Address) : (u.recalling s).Settled a := by
  have hrestored := h.alike (alike_recalling u s).symm
  have hscope := hrestored.scope fun x c hc => h.exists_recalling hc
  intro c' hc'
  have ha : a ∈ s.cells := by
    rw [← hrestored.mem_cells, Std.ExtTreeMap.mem_iff_isSome_getElem?, hc']
    rfl
  obtain ⟨c, hc⟩ := Option.isSome_iff_exists.mp (Std.ExtTreeMap.mem_iff_isSome_getElem?.mp ha)
  obtain ⟨v, hv, hvalue⟩ := hsettled a c hc
  obtain ⟨d, hd, hresult⟩ := h.exists_recalling hc
  rw [hc'] at hd
  cases hd
  exact ⟨v, hresult.trans hv, (hrestored.valueOf hs hscope hc hc').trans hvalue⟩

/-- A sheet is consistent if it shows what a settled sheet shows that was restored from it. -/
theorem consistent (h : Restored s u e) (hs : s.Formed) (hsettled : ∀ a, u.Settled a)
    (hsame : ∀ (a : Address) (c : Cell), s.cells[a]? = some c →
      ∃ c', u.cells[a]? = some c' ∧ c'.result = c.result) : s.Consistent := by
  rw [consistent_iff]
  intro a c hc
  obtain ⟨c', hc', hresult⟩ := hsame a c hc
  obtain ⟨v, hv, hvalue⟩ := hsettled a c' hc'
  exact ⟨v, hresult ▸ hv, .inl ((h.valueOf hs (h.scope hsame) hc hc').symm.trans hvalue)⟩

end Restored

/-! ## Both edits -/

/-- The deletion of inserted lines restores the sheet, and a consistent one with its values. -/
theorem Grown.restructure_undo (h : Grown s t e) (hs : s.Undoable e) :
    (t.restructure e.undo).answer ≠ .error .halted ∧ Restored s (t.restructure e.undo).sheet e ∧
      (s.Consistent ↔ (∀ fault, (t.restructure e.undo).answer ≠ .error (.precision fault)) ∧
        ∀ (a : Address) (c : Cell), s.cells[a]? = some c →
          ∃ c', (t.restructure e.undo).sheet.cells[a]? = some c' ∧ c'.result = c.result) := by
  obtain ⟨contents, hcontents⟩ := h.exists_movedContents hs
  rcases Sheet.restructure_cases hcontents (h.foreseen hs hcontents) with
    ⟨-, huntold⟩ | ⟨batch, -, hb, hend⟩
  · exact absurd huntold (h.not_untellable hs hcontents)
  have hrestored := h.restored_of_entering hs hcontents hb
  have hlike := hend.alike hrestored.formed
  refine ⟨hend.not_halted, hrestored.alike hlike, fun hconsistent => ?_, fun ⟨hcalm, hsame⟩ => ?_⟩
  · -- a pass over a sheet that is settled already leaves it as it is
    have hrecalls := alike_recalling batch.sheet s
    obtain ⟨v, hpass, hcells⟩ := hrecalls.recalculate (hrecalls.symm.formed hrestored.formed)
      (hrestored.settled_recalling hs.formed (hconsistent.settled hs.free))
      fun a ha => mem_affected_of_entering hb (hrecalls.mem_cells.mp ha)
    obtain ⟨hsheet, hanswer⟩ := hend.of_passed hpass
    refine ⟨fun fault hbroken => ?_, fun a c hc => ?_⟩
    · rcases hanswer with hanswer | hanswer <;> rw [hanswer] at hbroken <;> cases hbroken
    · rw [hsheet, hcells]
      exact hrestored.exists_recalling hc
  · exact (hrestored.alike hlike).consistent hs.formed (hend.settled hb hcalm) hsame

theorem deleteLines_undo {axis : Axis} {index count : Int} (hindex : 0 ≤ index) (hcount : 1 ≤ count)
    (hlast : index + count ≤ t.lineCount axis) :
    t.deleteLines axis index count = t.restructure (LineEdit.undo ⟨axis, index, count⟩) := by
  rw [deleteLines_eq hindex (by omega) hcount, Int.min_eq_left (by omega)]
  rfl

/-- An insertion of empty lines, after any history, and then the deletion of these lines, if no formula is
refused for a cycle and text can spell all moved references. The sheet has its bounds, occupied cells,
marks and edges again, also where a range was too large in between, and each content is the one that it
was, or the text of its formula with the corners of the moved ranges in order. All this is so unless the
insertion refuses a formula and a number is too long to tell of it. Exactly if the sheet was consistent, as
it is after every history that was not interrupted, the deletion calculates all cells and each shows what
it showed. -/
theorem insertLines_deleteLines (limits : Limits) (history : List Edit) (axis : Axis)
    (index count : Int) :
    let s := (new limits).run history
    let e : LineEdit := ⟨axis, index, count⟩
    let r := s.insertLines axis index count
    let r' := r.sheet.deleteLines axis index count
    (∀ a, ¬s.Circular a) → 0 ≤ index → index ≤ s.lineCount axis → 1 ≤ count →
      (axis = .col → s.lineCount axis + count ≤ mostColumns) →
      (∀ (a : Address) (c : Cell) f, s.cells[a]? = some c → Formula.parse c.content = .ok f →
        ∀ ref ∈ (f.shift e).references, ¬ref.IsFar ∧ ref.isWritable) →
      (r.answer ≠ .error .halted →
        r'.answer ≠ .error .halted ∧ r'.sheet.limits = s.limits ∧
        (∀ a, a ∈ r'.sheet.cells ↔ a ∈ s.cells) ∧ r'.sheet.graph = s.graph ∧
        (∀ (a : Address) (c : Cell), s.cells[a]? = some c → ∃ c', r'.sheet.cells[a]? = some c' ∧
          c'.rejection? = c.rejection? ∧ c'.formula? = c.formula?.map (Formula.straighten e) ∧
          (c'.content = c.content ∨ ∃ f, Formula.parse c.content = .ok f ∧ f.shift e ≠ f ∧
            c'.content = (f.straighten e).text)) ∧
        (s.Consistent ↔ (∀ fault, r'.answer ≠ .error (.precision fault)) ∧
          ∀ (a : Address) (c : Cell), s.cells[a]? = some c →
            ∃ c', r'.sheet.cells[a]? = some c' ∧ c'.result = c.result)) ∧
      (r.answer = .error .halted ↔ s.GrowsUntold e) ∧
      ((new limits).Uninterrupted history → s.Consistent) ∧
      (limits.precision.val ≤ Number.maxPrecision →
        (∀ past, past <+: history ++ [.insertLines axis index count] →
          Number.isWritable ((new limits).run past).limits.rows ∧ ((new limits).run past).TellsRanges) →
            s.Consistent ∧ r.answer ≠ .error .halted) := by
  intro s e r r' hfree hindex hlast hcount hcols hspelled
  have hs : s.Undoable e := ⟨formed_run limits history, admits_insertion hindex hlast hcount,
    by dsimp only [e]; omega, hfree, hspelled⟩
  have hr : r = s.restructure e := insertLines_eq hindex hlast hcount hcols
  refine ⟨fun hanswer => ?_, ?_, consistent_of_uninterrupted, fun hprecision hwritable => ?_⟩
  · rw [hr] at hanswer
    obtain ⟨-, hgrown⟩ := hs.restructure_cases.resolve_left fun h => hanswer h.1
    rw [← hr] at hgrown
    have hlines : r.sheet.lineCount axis = s.lineCount axis + count := by
      rw [← show (s.emptied e).lineCount axis = _ from hs.admits.lineCount]
      unfold lineCount
      rw [hgrown.limits]
      rfl
    have hr' : r' = r.sheet.restructure e.undo := deleteLines_undo hindex hcount (by omega)
    obtain ⟨hcalm, hrestored, hvalues⟩ := hgrown.restructure_undo hs
    rw [← hr'] at hcalm hrestored hvalues
    refine ⟨hcalm, hrestored.limits, fun a => hrestored.mem_cells, hrestored.graph hs, fun a c hc => ?_,
      hvalues⟩
    obtain ⟨c', hc', hcontent, hkind⟩ := hrestored.exists_cell hc
    exact ⟨c', hc', Cell.Kind.rejection?_straighten hkind, Cell.Kind.formula?_straighten hkind,
      hcontent ▸ Formula.respell_cases⟩
  · rw [hr]
    rcases hs.restructure_cases with ⟨hhalted, huntold⟩ | ⟨⟨hcalm, htold⟩, -⟩
    · exact iff_of_true hhalted huntold
    · exact iff_of_false hcalm htold
  · obtain ⟨huninterrupted, hcalm⟩ :=
      uninterrupted_snoc.mp (uninterrupted_of_writable hprecision hwritable)
    refine ⟨consistent_of_uninterrupted huninterrupted, fun hhalt => ?_⟩
    cases hcalm .halted (congrArg faultOf hhalt)

private def narrow : Limits :=
  { standard with rows := ⟨8, by decide⟩, cols := ⟨8, by decide⟩, rangeCells := ⟨2, by decide⟩ }

private def reversed : List (Address × String) := [(⟨0, 0⟩, "2"), (⟨0, 1⟩, "=SUM(A2:A1)")]

private def sumUpwards : Formula := .call "SUM" [.range ⟨1, 0⟩ ⟨0, 0⟩]

private theorem holds_reversed : ∀ item ∈ reversed, narrow.Holds item.1 := by
  simp [reversed, Limits.Holds, narrow]

private theorem parse_reversed {content : String} {f : Formula} (hmem : (a, content) ∈ reversed)
    (hf : Formula.parse content = .ok f) : a = ⟨0, 1⟩ ∧ f = sumUpwards := by
  have hsum : Formula.parse "=SUM(A2:A1)" = .ok sumUpwards := eq_ok_of_toOption (by decide +kernel)
  have hformula := Formula.isFormulaText_of_parse hf
  simp only [reversed, List.mem_cons, Prod.mk.injEq, List.not_mem_nil, or_false] at hmem
  rcases hmem with ⟨-, rfl⟩ | ⟨rfl, rfl⟩
  · exact absurd hformula (by decide)
  · rw [hsum] at hf
    exact ⟨rfl, (Except.ok.inj hf).symm⟩

private theorem not_circular_reversed : ∀ a, ¬((new narrow).run (setEach reversed)).Circular a :=
  not_circular_of_names holds_reversed (by decide +kernel) (by decide +kernel)

/-- A range of two cells with its last corner first, in a sheet where three are too many. -/
theorem insertLines_deleteLines_reversed :
    let s := (new ⟨⟨8, by decide⟩, ⟨8, by decide⟩, ⟨2, by decide⟩, ⟨10, by decide⟩⟩).run
      (setEach [(⟨0, 0⟩, "2"), (⟨0, 1⟩, "=SUM(A2:A1)")])
    let r := ((s.insertLines .row 1 1).sheet.deleteLines .row 1 1)
    r.sheet.graph = s.graph ∧ ∀ (a : Address) (c : Cell), s.cells[a]? = some c →
      ∃ c', r.sheet.cells[a]? = some c' ∧ c'.rejection? = c.rejection? ∧ c'.result = c.result := by
  change let s := (new narrow).run (setEach reversed); _
  intro s r
  have hs : s.Formed := formed_run narrow _
  have hlimits : ((new narrow).run (setEach reversed)).limits = narrow :=
    limits_setEach formed_of_empty reversed
  have hspelled : ∀ ref ∈ (sumUpwards.shift ⟨.row, 1, 1⟩).references, ref.Spellable := by decide +kernel
  have hlast : 1 ≤ ((new narrow).run (setEach reversed)).lineCount .row := by
    rw [lineCount, hlimits]
    decide
  obtain ⟨hcalm, -, hconsistent, -⟩ := insertLines_deleteLines narrow (setEach reversed) .row 1 1
    not_circular_reversed (by decide) hlast (by decide) (by simp)
    (fun a c f hc hf ref href => by
      rw [(parse_reversed (mem_of_setEach holds_reversed hc) hf).2] at href
      exact ⟨(hspelled ref href).near, (hspelled ref href).isWritable⟩)
  have hanswer : (s.insertLines .row 1 1).answer ≠ .error .halted := by
    rw [insertLines_eq (by decide) hlast (by decide) (by simp)]
    intro hhalted
    cases restructure_calm hs (bounded_run narrow _) (by decide) (.inl (by decide))
      (by rw [hlimits]; decide +kernel) (by rw [hlimits]; decide +kernel)
      (by rw [hlimits]; decide +kernel) (by rw [hlimits]; decide +kernel) .halted
      (congrArg faultOf hhalted)
  obtain ⟨-, -, -, hgraph, hcells, hvalues⟩ := hcalm hanswer
  have hranges : (new narrow).limits.TellsRanges reversed := fun _ => by decide +kernel
  have hsame := (hvalues.mp (hconsistent (uninterrupted_setEach formed_of_empty (bounded_new _)
    (by decide +kernel) (by decide +kernel) hranges))).2
  refine ⟨hgraph, fun a c hc => ?_⟩
  obtain ⟨c', hc', hmark, -⟩ := hcells a c hc
  obtain ⟨d, hd, hresult⟩ := hsame a c hc
  rw [hc'] at hd
  cases hd
  exact ⟨c', hc', hmark, hresult⟩

end Sheet
end Spreadsheet
