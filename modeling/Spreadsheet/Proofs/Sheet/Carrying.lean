import Spreadsheet.Proofs.Sheet.Entering
import Spreadsheet.Proofs.Sheet.Moving
import Spreadsheet.Proofs.Sheet.Refresh

/-! Cells that an edit of rows or columns carries along: none of them is deleted or names a deleted cell,
and they read only one another. Entered anew they are taken for what they were, they read what they read,
and once calculated they show what they showed. -/
namespace Spreadsheet.Sheet

/-- Whether an edit of lines leaves some cells and all that they name. -/
structure Keeps (s : Sheet) (e : LineEdit) (p : Address → Prop) : Prop where
  left : ∀ a, p a → ∃ b, a.shift? e = some b
  closed : ∀ a b, p a → s.graph.Reads a b → p b
  free : ∀ a, p a → ¬s.Circular a
  kept : ∀ a content kind f, p a → s.form? a = some (content, kind) →
    Formula.parse content = .ok f → f.Kept e
  sized : ∀ a content f, p a → s.form? a = some (content, .formula f) →
    (f.shift e).oversized? s.limits.rangeCells = none

/-- A sheet in which some cells of another one stand at the places where an edit of lines takes them,
with their texts rewritten, and the inserted lines are empty. -/
structure Carried (s u : Sheet) (e : LineEdit) (p : Address → Prop) : Prop where
  formed : u.Formed
  limits : u.limits = s.limits.edit e
  form? : ∀ a b content kind, p a → a.shift? e = some b → s.form? a = some (content, kind) →
    ∃ text, Formula.shiftText e content = .ok text ∧ (kind = .constant → text = content) ∧
      u.form? b = some (text, kind.shift e)
  vacant : ∀ a b, p a → a.shift? e = some b → s.form? a = none → u.form? b = none
  blank : ∀ b, e.Inserts (e.axis.position b) → u.form? b = none

variable {s t u : Sheet} {e : LineEdit} {p q : Address → Prop} {a b x y : Address}

theorem Keeps.fits (h : s.Keeps e p) (hs : s.Formed) (he : s.Admits e) {content : String}
    {kind : Cell.Kind} (ha : p a) (hform : s.form? a = some (content, kind)) :
    ∃ text, Formula.shiftText e content = .ok text ∧ (kind.shift e).Fits (s.limits.edit e) text ∧
      (kind = .constant → text = content) := by
  apply (hs.fits a _ hform).shift (ne_cycle_of_form? (h.free a ha) hform) he.index_nonneg
  · exact fun f hf => h.kept a content kind f ha hform hf
  · rintro f rfl
    exact h.sized a content f ha hform

theorem emptied_bounds (h : u.limits = s.limits.edit e) : u.bounds = (s.emptied e).bounds := by
  unfold bounds
  rw [h]
  rfl

/-- What is taken for the same, carried along, reads the same cells where they end up. -/
theorem mem_reads?_shift (hs : s.Formed) (he : s.Admits e) {content : String} {kind : Cell.Kind}
    (hform : s.form? a = some (content, kind)) (hkind : kind ≠ .rejected .cycle) {targets : AddressSet}
    (htargets : (kind.shift e).reads? (s.emptied e).bounds = some targets)
    (hxy : x.shift? e = some y) : y ∈ targets ↔ s.graph.Reads a x := by
  rw [Cell.Kind.mem_reads? htargets, hs.reads_iff hform hkind, he.contains_iff hxy]
  cases kind with
  | formula f => simp [Cell.Kind.shift, Formula.names_shift_iff hxy]
  | constant => simp [Cell.Kind.shift]
  | rejected reason => simp [Cell.Kind.shift]

/-! ## Entering -/

/-- Where the cells that are carried along end up, with the inserted lines. -/
def Places (e : LineEdit) (p : Address → Prop) (b : Address) : Prop :=
  e.Inserts (e.axis.position b) ∨ ∃ a, p a ∧ a.shift? e = some b

/-- The edges between these places: the former ones and some to inserted lines. -/
def Leads (s : Sheet) (e : LineEdit) (b y : Address) : Prop :=
  ∃ a, a.shift? e = some b ∧
    (e.Inserts (e.axis.position y) ∨ ∃ x, s.graph.Reads a x ∧ x.shift? e = some y)

theorem Places.of_shift? (h : Places e p b) (ha : a.shift? e = some b) : p a := by
  rcases h with hinserted | ⟨x, hx, hshift⟩
  · exact absurd hinserted (Address.exists_shift?.mp ⟨a, ha⟩)
  · exact Address.shift?_injective hshift ha ▸ hx

/-- No way leads out of an inserted line, and every other one goes along a former way. -/
theorem readsThrough_of_leads (h : Relation.TransGen (s.Leads e) b y) (ha : a.shift? e = some b) :
    e.Inserts (e.axis.position y) ∨ ∃ x, s.graph.ReadsThrough a x ∧ x.shift? e = some y := by
  induction h with
  | single hstep =>
    obtain ⟨c, hc, hstep⟩ := hstep
    obtain rfl := Address.shift?_injective ha hc
    exact hstep.imp_right fun ⟨x, hax, hx⟩ => ⟨x, .single hax, hx⟩
  | tail _ hstep ih =>
    obtain ⟨c, hc, hstep⟩ := hstep
    rcases ih with hinserted | ⟨d, had, hd⟩
    · exact absurd hinserted (Address.exists_shift?.mp ⟨c, hc⟩)
    · obtain rfl := Address.shift?_injective hd hc
      exact hstep.imp_right fun ⟨x, hdx, hx⟩ => ⟨x, had.tail hdx, hx⟩

theorem acyclic_leads (hs : s.Formed) (b : Address) : ¬Relation.TransGen (s.Leads e) b b := by
  intro hway
  obtain ⟨-, ⟨a, ha, -⟩, -⟩ := Relation.TransGen.head'_iff.mp hway
  rcases readsThrough_of_leads hway ha with hinserted | ⟨x, hax, hx⟩
  · exact Address.exists_shift?.mp ⟨a, ha⟩ hinserted
  · obtain rfl := Address.shift?_injective ha hx
    exact hs.acyclic a hax

theorem visible_movedContents (hs : s.Formed) {contents : AddressMap String}
    (hcontents : s.movedContents e = .ok contents) (b : Address) (content : String)
    (hcontent : contents[b]? = some content) : Text.isAllBlank content = false := by
  obtain ⟨a, c, hc, -, htext⟩ := (getElem?_movedContents hcontents).mp hcontent
  exact Formula.visible_shiftText htext (hs.visible a _ (form?_of_getElem? hc))

theorem Keeps.foreseen (h : s.Keeps e p) (hs : s.Formed) (he : s.Admits e)
    {contents : AddressMap String} (hcontents : s.movedContents e = .ok contents) :
    Foreseen (s.emptied e) contents (Places e p) (s.Leads e) := by
  refine ⟨inside_movedContents hs he.index_nonneg he.last hcontents, visible_movedContents hs hcontents,
    fun b _ => acyclic_leads hs b, fun b content hb hcontent => ?_⟩
  obtain ⟨a, c, hc, ha, htext⟩ := (getElem?_movedContents hcontents).mp hcontent
  have hform := form?_of_getElem? hc
  have hpa := hb.of_shift? ha
  obtain ⟨text, htext', hfits, -⟩ := h.fits hs he hpa hform
  rw [htext] at htext'
  cases htext'
  have hkind := ne_cycle_of_form? (h.free a hpa) hform
  refine ⟨c.kind.shift e, hfits, Cell.Kind.shift_ne_cycle hkind, fun targets htargets y hy => ?_⟩
  by_cases hinserted : e.Inserts (e.axis.position y)
  · exact ⟨.inl hinserted, a, ha, .inl hinserted⟩
  · obtain ⟨x, hx⟩ := Address.exists_shift?.mpr hinserted
    have hax := (mem_reads?_shift hs he hform hkind htargets hx).mp hy
    exact ⟨.inr ⟨x, h.closed a x hpa hax, hx⟩, a, ha, .inr ⟨x, hax, hx⟩⟩

/-- What stands in a cell after the moved contents were entered comes from a cell of the old sheet. -/
theorem exists_of_entering {contents : AddressMap String} (hcontents : s.movedContents e = .ok contents)
    {b : Batch} (hb : Entering (s.emptied e) contents q [] b) {form : String × Cell.Kind}
    (hy : b.sheet.form? y = some form) :
    ∃ (x : Address) (c : Cell), s.cells[x]? = some c ∧ x.shift? e = some y ∧
      Formula.shiftText e c.content = .ok form.1 :=
  (getElem?_movedContents hcontents).mp (hb.content_of_form? hy)

theorem form?_of_entering {contents : AddressMap String} (hcontents : s.movedContents e = .ok contents)
    {b : Batch} (hb : Entering (s.emptied e) contents q [] b) {c : Cell} (hc : s.cells[x]? = some c)
    (hxy : x.shift? e = some y) {text : String} (htext : Formula.shiftText e c.content = .ok text) :
    ∃ kind, b.sheet.form? y = some (text, kind) := by
  have hcontent := hb.content y
  rw [if_neg (by simp), (getElem?_movedContents hcontents).mpr ⟨x, c, hc, hxy, htext⟩] at hcontent
  obtain ⟨⟨_, kind⟩, hform, rfl⟩ := Option.map_eq_some_iff.mp hcontent
  exact ⟨kind, hform⟩

/-- The cells that are carried along are entered as what they were. -/
theorem Keeps.carried (h : s.Keeps e p) (hs : s.Formed) (he : s.Admits e)
    {contents : AddressMap String} (hcontents : s.movedContents e = .ok contents) {b : Batch}
    (hb : Entering (s.emptied e) contents (Places e p) [] b) : Carried s b.sheet e p where
  formed := hb.staged.formed formed_of_empty
  limits := hb.staged.limits
  form? a y content kind ha hy hform := by
    obtain ⟨c, hc, hsame⟩ := Option.map_eq_some_iff.mp hform
    cases hsame
    obtain ⟨text, htext, hfits, hconstant⟩ := h.fits hs he ha hform
    obtain ⟨kind', hform'⟩ := form?_of_entering hcontents hb hc hy htext
    refine ⟨text, htext, hconstant, ?_⟩
    rw [hform', hb.kind_unique formed_of_empty (.inr ⟨a, ha, hy⟩) hform' hfits
      (Cell.Kind.shift_ne_cycle (ne_cycle_of_form? (h.free a ha) hform))]
  vacant a y ha hy hform := by
    rw [Option.eq_none_iff_forall_ne_some]
    intro form hform'
    obtain ⟨x, c, hc, hx, -⟩ := exists_of_entering hcontents hb hform'
    obtain rfl := Address.shift?_injective hy hx
    rw [form?_of_getElem? hc] at hform
    contradiction
  blank y hy := by
    rw [Option.eq_none_iff_forall_ne_some]
    intro form hform'
    obtain ⟨x, c, -, hx, -⟩ := exists_of_entering hcontents hb hform'
    exact Address.exists_shift?.mp ⟨x, hx⟩ hy

theorem Carried.alike (h : Carried s t e p) (htu : Alike t u) : Carried s u e p where
  formed := htu.formed h.formed
  limits := htu.limits ▸ h.limits
  form? a b content kind ha hab hform := by
    obtain ⟨text, htext, hconstant, hform'⟩ := h.form? a b content kind ha hab hform
    exact ⟨text, htext, hconstant, htu.form? b ▸ hform'⟩
  vacant a b ha hab hform := htu.form? b ▸ h.vacant a b ha hab hform
  blank b hb := htu.form? b ▸ h.blank b hb

/-! ## Edges -/

/-- A cell that is carried along reads the cells that it read, where they end up, and beyond these only
cells of inserted lines. -/
theorem Carried.reads_iff (h : Carried s u e p) (hs : s.Formed) (he : s.Admits e)
    (hk : s.Keeps e p) (ha : p a) (hab : a.shift? e = some b) (hxy : x.shift? e = some y) :
    u.graph.Reads b y ↔ s.graph.Reads a x := by
  cases hform : s.form? a with
  | none =>
    have hvacant := h.vacant a b ha hab hform
    exact iff_of_false (h.formed.not_reads_of_vacant hvacant) (hs.not_reads_of_vacant hform)
  | some form =>
    obtain ⟨content, kind⟩ := form
    obtain ⟨text, -, -, hform'⟩ := h.form? a b content kind ha hab hform
    have hkind := ne_cycle_of_form? (hk.free a ha) hform
    obtain ⟨targets, htargets⟩ := Cell.Kind.exists_reads? (b := u.bounds)
      (Cell.Kind.shift_ne_cycle (e := e) hkind)
    rw [Graph.Reads, h.formed.reads b targets (by rw [hform']; exact htargets)]
    rw [emptied_bounds h.limits] at htargets
    exact mem_reads?_shift hs he hform hkind htargets hxy

/-! ## Values -/

theorem seen_of_vacant (h : s.form? a = none) : s.seen a = none := by
  unfold seen
  rw [Option.map_eq_none_iff.mp h]
  rfl

/-- What is seen of a cell is carried along with what is known of its value. -/
theorem Carried.seen (h : Carried s u e p) (hx : p x) (hxy : x.shift? e = some y)
    (hresult : ∀ d, s.cells[x]? = some d → ∃ d', u.cells[y]? = some d' ∧ d'.result = d.result) :
    u.seen y = s.seen x := by
  cases hcell : s.cells[x]? with
  | none =>
    have hvacant : s.form? x = none := by rw [Sheet.form?, hcell, Option.map_none]
    rw [seen_of_vacant hvacant, seen_of_vacant (h.vacant x y hx hxy hvacant)]
  | some d =>
    obtain ⟨d', hd', hsame⟩ := hresult d hcell
    unfold Sheet.seen
    rw [hcell, hd', Option.bind_some, Option.bind_some, hsame]

/-- A cell that is carried along has the value that it had, if it sees what it saw. -/
theorem Carried.valueOf (h : Carried s u e p) (hs : s.Formed) (he : s.Admits e) (hk : s.Keeps e p)
    (ha : p a) (hab : a.shift? e = some b) {c c' : Cell} (hc : s.cells[a]? = some c)
    (hc' : u.cells[b]? = some c')
    (hseen : ∀ x y, s.graph.Reads a x → x.shift? e = some y → u.seen y = s.seen x) :
    u.valueOf c' = s.valueOf c := by
  have hform := form?_of_getElem? hc
  obtain ⟨text, -, hconstant, hform'⟩ := h.form? a b c.content c.kind ha hab hform
  rw [form?_of_getElem? hc'] at hform'
  obtain ⟨hcontent, hkind⟩ := Prod.mk.inj (Option.some.inj hform')
  unfold Sheet.valueOf
  rw [hcontent, hkind]
  cases hck : c.kind with
  | constant => rw [hconstant hck]; rfl
  | rejected reason => rfl
  | formula f =>
    rw [hck] at hform
    have hparse := (hs.fits a _ hform).2.1
    have hmoved := h.formed.fits b _ (form?_of_getElem? hc')
    rw [hkind, hck] at hmoved
    have hreads := hs.reads a (f.addresses s.bounds) (by rw [hform]; rfl)
    have hbounds := emptied_bounds h.limits
    apply Formula.evaluate_shift
    refine ⟨?_, fun x y hxy => ?_, fun r hr x hx => ?_, fun r hr x y hx hxy => ⟨?_, ?_⟩,
      fun r hr x y hx hin hxy => ?_, fun y hy => ?_, fun y z hy _ hacross hz => ?_⟩
    · simp [scope, precision, h.limits]
    · rw [Bool.eq_iff_iff]
      unfold scope
      dsimp only
      rw [hbounds]
      exact he.contains_iff hxy
    · exact (hk.kept a c.content _ f ha hform hparse).left x ⟨r, hr, hx⟩
    · exact Formula.isWritable_of_names hparse ⟨r, hr, hx⟩
    · exact Formula.isWritable_of_names hmoved.2.1 ((Formula.names_shift_iff hxy).mpr ⟨r, hr, hx⟩)
    · apply hseen x y _ hxy
      rw [Graph.Reads, hreads, Formula.mem_addresses]
      exact ⟨hin, r, hr, hx⟩
    · exact seen_of_vacant (h.blank y hy)
    · unfold scope at hz ⊢
      dsimp only at hz ⊢
      rw [hbounds] at hz ⊢
      exact he.contains_inserted hy hacross hz

/-- Where all cells are settled, those that are carried along show what they showed. -/
theorem Carried.result (h : Carried s u e p) (hs : s.Formed) (he : s.Admits e) (hk : s.Keeps e p)
    (hsettled : ∀ a, p a → s.Settled a) (hsettled' : ∀ b, u.Settled b) :
    ∀ a b c, p a → a.shift? e = some b → s.cells[a]? = some c →
      ∃ c', u.cells[b]? = some c' ∧ c'.kind = c.kind.shift e ∧ c'.result = c.result := by
  intro a
  induction a using hs.acyclic.wellFounded.induction with
  | h a ih =>
    intro b c ha hab hc
    obtain ⟨text, -, -, hform⟩ := h.form? a b c.content c.kind ha hab (form?_of_getElem? hc)
    obtain ⟨c', hc', hsame⟩ := Option.map_eq_some_iff.mp hform
    have hseen : ∀ x y, s.graph.Reads a x → x.shift? e = some y → u.seen y = s.seen x := by
      intro x y hax hxy
      have hx := hk.closed a x ha hax
      refine h.seen hx hxy fun d hd => ?_
      obtain ⟨d', hd', -, hresult⟩ := ih x hax y d hx hxy hd
      exact ⟨d', hd', hresult⟩
    obtain ⟨v, hv, hvalue⟩ := hsettled a ha c hc
    obtain ⟨v', hv', hvalue'⟩ := hsettled' b c' hc'
    rw [h.valueOf hs he hk ha hab hc hc' hseen, hvalue] at hvalue'
    cases hvalue'
    exact ⟨c', hc', (Prod.mk.inj hsame).2, hv'.trans hv.symm⟩

/-! ## The whole edit -/

/-- How an edit of lines ends once all contents are entered: with a pass over all cells. -/
inductive Reentered (b : Batch) (r : Edited (Except Fault (List Diagnostic))) : Prop where
  | passed : b.sheet.recalculate (b.sheet.affected b.touched) = .ok r.sheet →
    r.answer = .ok b.found ∨ r.answer = .error .untold → Reentered b r
  | broken {broken : Broken} : b.sheet.recalculate (b.sheet.affected b.touched) = .error broken →
    r.sheet = broken.sheet → r.answer = .error (.precision broken.fault) → Reentered b r

namespace Reentered

variable {b : Batch} {r : Edited (Except Fault (List Diagnostic))}

theorem alike (h : Reentered b r) (hb : b.sheet.Formed) : Alike b.sheet r.sheet := by
  cases h with
  | passed hpass _ => exact (recalculate_eq_ok hb hpass).1
  | broken hpass hsheet _ => exact hsheet ▸ (recalculate_eq_error hpass).1

theorem not_halted (h : Reentered b r) : r.answer ≠ .error .halted := by
  cases h with
  | passed _ hanswer => rcases hanswer with hanswer | hanswer <;> simp [hanswer]
  | broken _ _ hanswer => simp [hanswer]

theorem found (h : Reentered b r) {found : List Diagnostic} (hfound : r.answer = .ok found) :
    found = b.found := by
  cases h with
  | passed _ hanswer =>
    rw [hfound] at hanswer
    simpa using hanswer
  | broken _ _ hanswer =>
    rw [hfound] at hanswer
    contradiction

theorem of_passed (h : Reentered b r)
    (hpass : b.sheet.recalculate (b.sheet.affected b.touched) = .ok u) :
    r.sheet = u ∧ (r.answer = .ok b.found ∨ r.answer = .error .untold) := by
  cases h with
  | passed hpass' hanswer =>
    rw [hpass] at hpass'
    cases hpass'
    exact ⟨rfl, hanswer⟩
  | broken hpass' _ _ =>
    rw [hpass] at hpass'
    contradiction

end Reentered

/-- Once all contents are entered the pass goes over all cells. -/
theorem mem_affected_of_entering {contents : AddressMap String} {b : Batch}
    (hb : Entering (s.emptied e) contents q [] b) (hx : x ∈ b.sheet.cells) :
    x ∈ b.sheet.affected b.touched := by
  obtain ⟨c, hc⟩ := Option.isSome_iff_exists.mp (Std.ExtTreeMap.mem_iff_isSome_getElem?.mp hx)
  have hcontent := hb.content_of_form? (form?_of_getElem? hc)
  rw [mem_affected (hb.staged.formed formed_of_empty).sound]
  refine .inl (hb.touched x ?_ (by simp))
  rw [Std.ExtTreeMap.mem_iff_isSome_getElem?, hcontent]
  rfl

/-- If that pass comes to its end all cells show their values. -/
theorem Reentered.settled {contents : AddressMap String} {b : Batch}
    (hb : Entering (s.emptied e) contents q [] b)
    {r : Edited (Except Fault (List Diagnostic))} (h : Reentered b r)
    (hcalm : ∀ fault, r.answer ≠ .error (.precision fault)) : ∀ a, r.sheet.Settled a := by
  have hformed := hb.staged.formed formed_of_empty
  cases h with
  | passed hpass _ =>
    obtain ⟨hlike, -, hsettled⟩ := recalculate_eq_ok hformed hpass
    intro a c hc
    refine hsettled a (mem_affected_of_entering hb ?_) c hc
    rw [hlike.mem_cells, Std.ExtTreeMap.mem_iff_isSome_getElem?, hc]
    rfl
  | broken _ _ hanswer => exact absurd hanswer (hcalm _)

/-- An edit of lines enters the moved contents and calculates, unless a refusal cannot be told of. -/
theorem restructure_cases {contents : AddressMap String}
    (hcontents : s.movedContents e = .ok contents) {r : Address → Address → Prop}
    (hq : Foreseen (s.emptied e) contents q r) :
    ((s.restructure e).answer = .error .halted ∧ (s.emptied e).Untellable contents q) ∨
      ∃ b, (Batch.start (s.emptied e)).putAll contents.toList = .ok b ∧
        Entering (s.emptied e) contents q [] b ∧ Reentered b (s.restructure e) := by
  have hvacant : ∀ x, (s.emptied e).form? x = none := fun x => by simp [emptied, Sheet.form?]
  unfold restructure enterAll
  rw [hcontents]
  dsimp only
  generalize (Number.isWritable e.index && Number.isWritable e.count) = writable
  rcases hq.putAll formed_of_empty hvacant with ⟨b, hput, hb⟩ | ⟨⟨b, hput⟩, huntold⟩
  · refine .inr ⟨b, hput, hb, ?_⟩
    unfold emptied at hput
    rw [hput]
    dsimp only
    rw [conclude_eq]
    cases hpass : b.sheet.recalculate (b.sheet.affected b.touched) with
    | ok u =>
      cases writable with
      | true => exact .passed hpass (.inl rfl)
      | false => exact .passed hpass (.inr rfl)
    | error broken => exact .broken hpass rfl rfl
  · unfold emptied at hput
    rw [hput]
    exact .inl ⟨rfl, huntold⟩

/-- A moved content that is refused where that cannot be told of is in a row whose number is too long, or
the limit is, and a range in it was over that before. -/
theorem exists_unwritable_of_untellable {contents : AddressMap String} (hs : s.Formed)
    (hcontents : s.movedContents e = .ok contents)
    (hsized : ∀ (a : Address) (c : Cell) text, s.cells[a]? = some c →
      Formula.shiftText e c.content = .ok text →
        (Cell.Kind.rejected .invalidRange).Fits (s.limits.edit e) text →
          (Cell.Kind.rejected .invalidRange).Fits s.limits c.content)
    (h : (s.emptied e).Untellable contents q) :
    ∃ (a b : Address) (c : Cell), s.cells[a]? = some c ∧ c.isFormula ∧ a.shift? e = some b ∧
      (b.isWritable = false ∨
        c.rejection? = some .invalidRange ∧ Number.isWritable s.limits.rangeCells = false) := by
  obtain ⟨b, text, reason, hb, hfits, hlong, -⟩ := h
  obtain ⟨a, c, hc, hab, htext⟩ := (getElem?_movedContents hcontents).mp hb
  have hformula : Formula.isFormulaText text := by
    unfold Cell.Kind.Fits at hfits
    cases reason <;> first | exact hfits.1 | exact hfits.elim
  refine ⟨a, b, c, hc, ?_, hab, ?_⟩
  · unfold Cell.isFormula
    unfold Formula.shiftText at htext
    cases hconstant : Formula.isFormulaText c.content with
    | true => rfl
    | false =>
      rw [hconstant] at htext
      cases htext
      rw [hconstant] at hformula
      exact hformula
  · rw [show (s.emptied e).limits = s.limits.edit e from rfl, Limits.tells_edit,
      Limits.tells_eq_false] at hlong
    refine hlong.imp_right fun ⟨hrange, hlimit⟩ => ⟨?_, hlimit⟩
    exact hs.rejection?_of_fits hc (hsized a c text hc htext (hrange ▸ hfits))

/-- An edit of lines that is done but cannot be told of has a number that is too long. -/
theorem untold_of_restructure (h : (s.restructure e).answer = .error .untold) :
    Number.isWritable e.index = false ∨ Number.isWritable e.count = false := by
  have hafter := s.afterMove_restructure e
  generalize s.restructure e = r at hafter h
  cases hafter with
  | refused _ => cases h
  | told _ _ => cases h
  | untold _ _ hlong => exact hlong
  | failed _ hfault => exact absurd (hfault.trans h) not_untold_enterAll

end Spreadsheet.Sheet
