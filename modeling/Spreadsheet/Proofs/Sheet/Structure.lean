import Spreadsheet.Proofs.Formula.Names
import Spreadsheet.Proofs.Graph.Paths
import Spreadsheet.Sheet.Edit

/-! What holds of a sheet whether or not its cells are calculated: every content is taken for what it
is, the edges are those that the formulas name, and they close no cycle. -/
namespace Spreadsheet

/-- Whether an address lies inside a sheet of these limits. -/
def Limits.Holds (l : Limits) (a : Address) : Prop :=
  0 ≤ a.row ∧ a.row < l.rows ∧ 0 ≤ a.col ∧ a.col < l.cols

/-- Whether the numbers in what is told of a refusal in a cell are short enough to write, by its reason:
that of the row, and for a range that is too large the limit. -/
def Limits.tells (l : Limits) (a : Address) (reason : ErrorKind) : Bool :=
  a.isWritable && (reason != .invalidRange || Number.isWritable l.rangeCells)

theorem Limits.tells_eq_false {l : Limits} {a : Address} {reason : ErrorKind} :
    l.tells a reason = false ↔ a.isWritable = false ∨
      reason = .invalidRange ∧ Number.isWritable l.rangeCells = false := by
  unfold tells
  cases a.isWritable <;> simp

theorem Limits.tells_of_ne {l : Limits} {a : Address} {reason : ErrorKind} (h : reason ≠ .invalidRange) :
    l.tells a reason = a.isWritable := by
  unfold tells
  rw [bne_iff_ne.mpr h, Bool.true_or, Bool.and_true]

theorem Limits.tells_invalidRange {l : Limits} {a : Address} :
    l.tells a .invalidRange = (a.isWritable && Number.isWritable l.rangeCells) := by
  unfold tells
  rw [bne_self_eq_false, Bool.false_or]

theorem Limits.isWritable_of_tells {l : Limits} {a : Address} {reason : ErrorKind}
    (h : l.tells a reason) : a.isWritable := by
  unfold tells at h
  rw [Bool.and_eq_true] at h
  exact h.1

theorem Rejection.isWritable_of_isTellable {a : Address} {rejection : Option Rejection} {r : Rejection}
    (hr : rejection = some r) (h : rejection.all (isTellable a)) : a.isWritable := by
  rw [hr, Option.all_some, isTellable, Bool.and_eq_true] at h
  exact h.1

@[simp] theorem Rejection.isTellable_circular (a : Address) (path : List Address) :
    (Rejection.circular path).isTellable a = a.isWritable := by
  rw [isTellable, numbers, List.all_nil, Bool.and_true]

/-- A content with no range that is too large is told of where its row is. -/
theorem Limits.tells_of_isWritable {l : Limits} {a : Address} {reason : ErrorKind} (ha : a.isWritable)
    (h : reason = .invalidRange → Number.isWritable l.rangeCells) : l.tells a reason := by
  rw [← Bool.not_eq_false, tells_eq_false]
  rintro (hrow | ⟨hreason, hlimit⟩)
  · exact Bool.false_ne_true (hrow.symm.trans ha)
  · exact Bool.false_ne_true (hlimit.symm.trans (h hreason))

theorem Cell.rejection?_eq_some {c : Cell} {reason : ErrorKind} :
    c.rejection? = some reason ↔ c.kind = .rejected reason := by
  unfold rejection?
  cases c.kind <;> simp

theorem Cell.formula?_eq_some {c : Cell} {f : Formula} : c.formula? = some f ↔ c.kind = .formula f := by
  unfold formula?
  cases c.kind <;> simp

namespace Cell.Kind

/-- What a content can be taken for. Whether a formula closes a cycle does not show in its text. -/
def Fits (l : Limits) (content : String) : Kind → Prop
  | .constant => Formula.isFormulaText content = false
  | .formula f =>
    Formula.isFormulaText content ∧ Formula.parse content = .ok f ∧
      f.oversized? l.rangeCells = none
  | .rejected .malformed => Formula.isFormulaText content ∧ ∃ e, Formula.parse content = .error e
  | .rejected .invalidRange =>
    Formula.isFormulaText content ∧
      ∃ f corners, Formula.parse content = .ok f ∧ f.oversized? l.rangeCells = some corners
  | .rejected .cycle =>
    Formula.isFormulaText content ∧
      ∃ f, Formula.parse content = .ok f ∧ f.oversized? l.rangeCells = none
  | .rejected _ => False

/-- Why a formula of this kind was refused. -/
def reason? : Kind → Option ErrorKind
  | .rejected reason => some reason
  | _ => none

theorem reason?_eq_some {kind : Kind} {reason : ErrorKind} :
    kind.reason? = some reason ↔ kind = .rejected reason := by
  cases kind <;> simp [reason?]

/-- The cells that a cell of this kind reads. A refusal for a cycle keeps the former edges, so that
these tell nothing of the content. -/
def reads? (b : Bounds) : Kind → Option AddressSet
  | .formula f => some (f.addresses b)
  | .rejected .cycle => none
  | _ => some ∅

theorem exists_reads? {b : Bounds} {kind : Kind} (h : kind ≠ .rejected .cycle) :
    ∃ targets, kind.reads? b = some targets := by
  unfold reads?
  split
  · exact ⟨_, rfl⟩
  · exact absurd rfl h
  · exact ⟨∅, rfl⟩

/-- Only formulas read cells. -/
theorem mem_reads? {b : Bounds} {kind : Kind} {targets : AddressSet}
    (h : kind.reads? b = some targets) {a : Address} :
    a ∈ targets ↔ ∃ f, kind = .formula f ∧ b.contains a ∧ f.Names a := by
  unfold reads? at h
  split at h
  · cases h
    simp [Formula.mem_addresses]
  · contradiction
  · rename_i hformula _
    cases h
    simpa using fun f hf => absurd hf (hformula f)

/-- The text of a content determines what it is taken for, but for a refusal for a cycle. -/
theorem Fits.unique {l : Limits} {content : String} {kind kind' : Kind} (h : kind.Fits l content)
    (h' : kind'.Fits l content) (hfree : kind ≠ .rejected .cycle)
    (hfree' : kind' ≠ .rejected .cycle) : kind = kind' := by
  unfold Fits at h h'
  split at h <;> split at h' <;> grind

end Cell.Kind

/-- Whether all ranges in some contents can be told of: none is too large, or the limit is short enough to
write. -/
def Limits.TellsRanges (l : Limits) (items : List (Address × String)) : Prop :=
  (∃ item ∈ items, (Cell.Kind.rejected .invalidRange).Fits l item.2) → Number.isWritable l.rangeCells

theorem Limits.TellsRanges.tells {l : Limits} {items : List (Address × String)} (h : l.TellsRanges items)
    {item : Address × String} (hitem : item ∈ items) {reason : ErrorKind}
    (hfits : (Cell.Kind.rejected reason).Fits l item.2) {a : Address} (ha : a.isWritable) :
    l.tells a reason := tells_of_isWritable ha fun hrange => h ⟨item, hitem, hrange ▸ hfits⟩

namespace Sheet

theorem holds_iff {s : Sheet} {a : Address} :
    s.limits.Holds a ↔ a.Natural ∧ s.bounds.contains a := by
  unfold Limits.Holds Address.Natural Bounds.contains bounds Address.isBelow
  simp only [Option.all_some, Bool.and_eq_true, decide_eq_true_eq]
  omega

theorem holds_of_locate {s : Sheet} {given : Address.Given} {a : Address}
    (h : s.locate given = .ok a) : s.limits.Holds a := by
  unfold locate at h
  split at h
  · contradiction
  · rename_i b hb
    split at h
    · rename_i hin
      cases h
      exact holds_iff.mpr ⟨Address.natural_of_ofGiven? hb, hin⟩
    · contradiction

theorem locate_given {s : Sheet} {a : Address} (h : s.limits.Holds a) :
    s.locate a.given = .ok a := by
  have hgiven : Address.ofGiven? a.given = .ok a := by
    unfold Address.given Address.ofGiven?
    dsimp only
    rw [if_neg]
    have hnat := (holds_iff.mp h).1
    unfold Address.Natural at hnat
    omega
  unfold locate
  rw [hgiven]
  exact if_pos (holds_iff.mp h).2

/-- What stands in a cell, without what is known of its value. -/
def form? (s : Sheet) (a : Address) : Option (String × Cell.Kind) :=
  s.cells[a]?.map fun c => (c.content, c.kind)

/-- Whether a cell is refused for a cycle. -/
def Circular (s : Sheet) (a : Address) : Prop :=
  ∃ c, s.cells[a]? = some c ∧ c.rejection? = some .cycle

/-- Whether a cell is refused for a range that is too large. -/
def Oversized (s : Sheet) (a : Address) : Prop :=
  ∃ c, s.cells[a]? = some c ∧ c.rejection? = some .invalidRange

/-- Whether all ranges that are too large can be told of: there are none, or their limit is short enough to
write. -/
def TellsRanges (s : Sheet) : Prop := (∃ a, s.Oversized a) → Number.isWritable s.limits.rangeCells

/-- Whether a cell has no value but an old one. -/
def Unknown (s : Sheet) (a : Address) : Prop :=
  ∃ c, s.cells[a]? = some c ∧ ∀ v, c.result ≠ .known v

/-- The cells that the form of a cell calls for; a vacant cell reads nothing. -/
def formReads? (b : Bounds) : Option (String × Cell.Kind) → Option AddressSet
  | none => some ∅
  | some (_, kind) => kind.reads? b

/-- What every history keeps. -/
structure Formed (s : Sheet) : Prop where
  sound : s.graph.Sound
  acyclic : s.graph.Acyclic
  inside : ∀ a e, s.form? a = some e → s.limits.Holds a
  visible : ∀ a e, s.form? a = some e → Text.isAllBlank e.1 = false
  fits : ∀ a e, s.form? a = some e → e.2.Fits s.limits e.1
  reads : ∀ a targets, formReads? s.bounds (s.form? a) = some targets →
    s.graph.readsOf a = targets
  targets : ∀ a b, s.graph.Reads a b → s.limits.Holds b

theorem form?_eq_none {s : Sheet} {a : Address} : s.form? a = none ↔ a ∉ s.cells := by
  unfold form?
  rw [Option.map_eq_none_iff, Std.ExtTreeMap.mem_iff_isSome_getElem?, Option.not_isSome_iff_eq_none]

theorem form?_of_getElem? {s : Sheet} {a : Address} {c : Cell} (h : s.cells[a]? = some c) :
    s.form? a = some (c.content, c.kind) := by
  rw [form?, h]
  rfl

theorem exists_rejection?_iff {s : Sheet} {a : Address} {reason : ErrorKind} :
    (∃ c, s.cells[a]? = some c ∧ c.rejection? = some reason) ↔
      ∃ content, s.form? a = some (content, .rejected reason) := by
  constructor
  · rintro ⟨c, hc, hreason⟩
    rw [Cell.rejection?_eq_some] at hreason
    exact ⟨c.content, by rw [form?_of_getElem? hc, hreason]⟩
  · rintro ⟨content, hform⟩
    obtain ⟨⟨text, kind, result⟩, hc, hsame⟩ := Option.map_eq_some_iff.mp hform
    cases hsame
    exact ⟨_, hc, rfl⟩

theorem circular_iff {s : Sheet} {a : Address} :
    s.Circular a ↔ ∃ content, s.form? a = some (content, .rejected .cycle) := exists_rejection?_iff

theorem oversized_iff {s : Sheet} {a : Address} :
    s.Oversized a ↔ ∃ content, s.form? a = some (content, .rejected .invalidRange) := exists_rejection?_iff

theorem ne_cycle_of_form? {s : Sheet} {a : Address} (hfree : ¬s.Circular a) {content : String}
    {kind : Cell.Kind} (h : s.form? a = some (content, kind)) : kind ≠ .rejected .cycle := by
  rintro rfl
  exact hfree (circular_iff.mpr ⟨content, h⟩)

theorem formed_of_empty {l settings : Limits} {recalculated : List Address} :
    Formed ⟨l, ∅, ∅, recalculated, settings⟩ := by
  have hvacant : ∀ a, (Sheet.mk l ∅ ∅ recalculated settings).form? a = none :=
    fun a => by simp [form?]
  refine ⟨Graph.sound_empty, Graph.acyclic_empty, ?_, ?_, ?_, ?_, ?_⟩
  · intro a e h
    rw [hvacant] at h
    contradiction
  · intro a e h
    rw [hvacant] at h
    contradiction
  · intro a e h
    rw [hvacant] at h
    contradiction
  · intro a targets h
    rw [hvacant] at h
    cases h
    exact Graph.readsOf_empty a
  · intro a b h
    rw [Graph.Reads, Graph.readsOf_empty] at h
    exact absurd h Std.ExtTreeSet.not_mem_empty

theorem Formed.parse_of_formula? {s : Sheet} (h : s.Formed) {a : Address} {c : Cell} {f : Formula}
    (hc : s.cells[a]? = some c) (hf : c.formula? = some f) : Formula.parse c.content = .ok f := by
  have hfits := h.fits a _ (form?_of_getElem? hc)
  rw [Cell.formula?_eq_some.mp hf] at hfits
  exact hfits.2.1

/-- A cell that is vacant reads nothing. -/
theorem Formed.not_reads_of_vacant {s : Sheet} (h : s.Formed) {a b : Address}
    (ha : s.form? a = none) : ¬s.graph.Reads a b := by
  intro hab
  have hreads := h.reads a ∅ (by rw [ha]; rfl)
  rw [Graph.Reads, hreads] at hab
  exact Std.ExtTreeSet.not_mem_empty hab

/-- A cell that is not refused for a cycle reads the cells within the bounds that its formula names. -/
theorem Formed.reads_iff {s : Sheet} (h : s.Formed) {a b : Address} {content : String}
    {kind : Cell.Kind} (hform : s.form? a = some (content, kind)) (hkind : kind ≠ .rejected .cycle) :
    s.graph.Reads a b ↔ ∃ f, kind = .formula f ∧ s.bounds.contains b ∧ f.Names b := by
  obtain ⟨targets, htargets⟩ := Cell.Kind.exists_reads? (b := s.bounds) hkind
  rw [Graph.Reads, h.reads a targets (by rw [hform]; exact htargets), Cell.Kind.mem_reads? htargets]

/-- A cell that reads another one names it, unless it is refused for a cycle. -/
theorem Formed.names_of_reads {s : Sheet} (h : s.Formed) {a b : Address} (hfree : ¬s.Circular a)
    (hab : s.graph.Reads a b) :
    ∃ (c : Cell) (f : Formula), s.cells[a]? = some c ∧ Formula.parse c.content = .ok f ∧ f.Names b := by
  cases hc : s.cells[a]? with
  | none => exact absurd hab (h.not_reads_of_vacant (by rw [form?, hc, Option.map_none]))
  | some c =>
    have hform := form?_of_getElem? hc
    obtain ⟨f, hkind, -, hnames⟩ := (h.reads_iff hform (ne_cycle_of_form? hfree hform)).mp hab
    exact ⟨c, f, rfl, h.parse_of_formula? hc (Cell.formula?_eq_some.mpr hkind), hnames⟩

/-- A content with a range that is too large was refused for it. -/
theorem Formed.rejection?_of_fits {s : Sheet} (h : s.Formed) {a : Address} {c : Cell}
    (hc : s.cells[a]? = some c) (hfits : (Cell.Kind.rejected .invalidRange).Fits s.limits c.content) :
    c.rejection? = some .invalidRange := by
  have hkind := h.fits a _ (form?_of_getElem? hc)
  have hcycle : c.kind ≠ .rejected .cycle := by
    intro hcycle
    dsimp only at hkind
    rw [hcycle] at hkind
    obtain ⟨-, f, hf, hsmall⟩ := hkind
    obtain ⟨-, g, corners, hg, hlarge⟩ := hfits
    rw [hf] at hg
    cases hg
    rw [hsmall] at hlarge
    cases hlarge
  exact Cell.rejection?_eq_some.mpr (hkind.unique hfits hcycle (by simp))

/-! ## Sheets that differ in values only -/

/-- Sheets with the same contents, kinds and edges. -/
structure Alike (s t : Sheet) : Prop where
  limits : s.limits = t.limits
  graph : s.graph = t.graph
  form? : ∀ a, s.form? a = t.form? a

namespace Alike

variable {s t u : Sheet}

theorem refl (s : Sheet) : Alike s s := ⟨rfl, rfl, fun _ => rfl⟩

theorem symm (h : Alike s t) : Alike t s := ⟨h.limits.symm, h.graph.symm, fun a => (h.form? a).symm⟩

theorem trans (h : Alike s t) (h' : Alike t u) : Alike s u :=
  ⟨h.limits.trans h'.limits, h.graph.trans h'.graph, fun a => (h.form? a).trans (h'.form? a)⟩

theorem bounds (h : Alike s t) : s.bounds = t.bounds := by
  unfold Sheet.bounds
  rw [h.limits]

theorem mem_cells (h : Alike s t) {a : Address} : a ∈ s.cells ↔ a ∈ t.cells := by
  rw [← Decidable.not_iff_not, ← form?_eq_none, ← form?_eq_none, h.form?]

theorem circular_iff (h : Alike s t) {a : Address} : s.Circular a ↔ t.Circular a := by
  rw [Sheet.circular_iff, Sheet.circular_iff, h.form?]

theorem formed (h : Alike s t) (hs : s.Formed) : t.Formed where
  sound := h.graph ▸ hs.sound
  acyclic := h.graph ▸ hs.acyclic
  inside a e he := h.limits ▸ hs.inside a e (h.form? a ▸ he)
  visible a e he := hs.visible a e (h.form? a ▸ he)
  fits a e he := h.limits ▸ hs.fits a e (h.form? a ▸ he)
  reads a targets ha := by
    rw [← h.graph]
    apply hs.reads
    rwa [h.form?, h.bounds]
  targets a b hab := h.limits ▸ hs.targets a b (h.graph ▸ hab)

end Alike

/-- Without formulas refused for a cycle bounds, contents and kinds determine the edges. -/
theorem Formed.alike {s t : Sheet} (hs : s.Formed) (ht : t.Formed) (hfree : ∀ a, ¬s.Circular a)
    (hlimits : s.limits = t.limits) (hform : ∀ a, s.form? a = t.form? a) : Alike s t := by
  refine ⟨hlimits, hs.sound.ext ht.sound fun a => ?_, hform⟩
  have hbounds : s.bounds = t.bounds := by
    unfold bounds
    rw [hlimits]
  have hreads : ∃ targets, formReads? s.bounds (s.form? a) = some targets := by
    cases he : s.form? a with
    | none => exact ⟨∅, rfl⟩
    | some e => exact Cell.Kind.exists_reads? (ne_cycle_of_form? (hfree a) he)
  obtain ⟨targets, htargets⟩ := hreads
  rw [hs.reads a targets htargets, ht.reads a targets (by rw [← hform, ← hbounds, htargets])]

/-! ## Putting contents into cells -/

section Interpret

variable {s : Sheet} {a : Address} {content : String}

/-- Content that is not refused is taken for what it is, and its edges close no cycle. -/
theorem fits_of_interpret {kind : Cell.Kind} {targets : AddressSet}
    (h : s.interpret a content = .ok (kind, targets)) :
    kind.Fits s.limits content ∧ kind.reason? = none ∧ kind.reads? s.bounds = some targets ∧
      s.graph.cyclePath? a targets = none ∧ ∀ b ∈ targets, s.limits.Holds b := by
  unfold interpret at h
  split at h
  · rename_i hconstant
    cases h
    refine ⟨by simpa [Cell.Kind.Fits] using hconstant, rfl, rfl, ?_, by simp⟩
    rw [← Option.not_isSome_iff_eq_none, Graph.isSome_cyclePath?]
    simp
  · rename_i hformula
    split at h
    · contradiction
    · rename_i f hf
      split at h
      · contradiction
      · rename_i hsize
        dsimp only at h
        split at h
        · contradiction
        · rename_i hfree
          cases h
          refine ⟨⟨by simpa using hformula, hf, hsize⟩, rfl, rfl, hfree, ?_⟩
          intro b hb
          obtain ⟨hin, hnames⟩ := Formula.mem_addresses.mp hb
          exact holds_iff.mpr ⟨Formula.natural_of_parse hf hnames, hin⟩

theorem fits_of_interpret_error {r : Rejection} (h : s.interpret a content = .error r) :
    (Cell.Kind.rejected r.kind).Fits s.limits content ∧
      ∀ path, r = .circular path → ∃ f, (Cell.Kind.formula f).Fits s.limits content ∧
        (s.graph.cyclePath? a (f.addresses s.bounds)).isSome := by
  unfold interpret at h
  split at h
  · contradiction
  · rename_i hformula
    have htext : Formula.isFormulaText content := by simpa using hformula
    split at h
    · rename_i e he
      cases h
      exact ⟨⟨htext, e, he⟩, fun path heq => by cases heq⟩
    · rename_i f hf
      split at h
      · rename_i first last hsize
        cases h
        exact ⟨⟨htext, f, (first, last), hf, hsize⟩, fun path heq => by cases heq⟩
      · rename_i hsize
        dsimp only at h
        split at h
        · rename_i path hpath
          cases h
          exact ⟨⟨htext, f, hf, hsize⟩, fun _ _ => ⟨f, ⟨htext, hf, hsize⟩, by rw [hpath]; rfl⟩⟩
        · contradiction

/-- A range is refused for the limit that the sheet has. -/
theorem limit_of_stage {first last : Address} {limit : Int}
    (h : (s.stage a content).2 = some (.oversized first last limit)) : limit = s.limits.rangeCells := by
  unfold stage at h
  split at h
  · cases h
  · cases h
  · rename_i hr
    cases h
    unfold interpret at hr
    split at hr
    · cases hr
    split at hr
    · cases hr
    split at hr
    · cases hr
      rfl
    · dsimp only at hr
      split at hr <;> cases hr

/-- What staging does: either the cell gets the edges that its content calls for, and they close no
cycle, or the content is refused since its edges would, and shows that. -/
theorem stage_cases (s : Sheet) (a : Address) (content : String) :
    ∃ kind, kind.Fits s.limits content ∧
      (s.stage a content).2.map Rejection.kind = kind.reason? ∧
      ((∃ targets, kind.reads? s.bounds = some targets ∧ s.graph.cyclePath? a targets = none ∧
          (∀ b ∈ targets, s.limits.Holds b) ∧
          (s.stage a content).1 = { s with
            cells := s.cells.insert a ⟨content, kind, .pending none⟩,
            graph := s.graph.setReads a targets }) ∨
        kind = .rejected .cycle ∧
          (∃ f, (Cell.Kind.formula f).Fits s.limits content ∧
            (s.graph.cyclePath? a (f.addresses s.bounds)).isSome) ∧
          (s.stage a content).1 = { s with
            cells := s.cells.insert a ⟨content, .rejected .cycle, .known (.error .cycle)⟩ }) := by
  unfold stage
  split
  · rename_i kind targets h
    obtain ⟨hfits, hreason, hreads, hfree, hinside⟩ := fits_of_interpret h
    exact ⟨kind, hfits, hreason.symm, .inl ⟨targets, hreads, hfree, hinside, rfl⟩⟩
  · rename_i path h
    obtain ⟨hfits, hcircular⟩ := fits_of_interpret_error h
    exact ⟨.rejected .cycle, hfits, rfl, .inr ⟨rfl, hcircular path rfl, rfl⟩⟩
  · rename_i r hcircular h
    refine ⟨.rejected r.kind, (fits_of_interpret_error h).1, rfl, .inl ⟨∅, ?_, ?_, by simp, rfl⟩⟩
    · cases r with
      | malformed e => rfl
      | oversized first last limit => rfl
      | circular path => exact absurd rfl (hcircular path)
    · rw [← Option.not_isSome_iff_eq_none, Graph.isSome_cyclePath?]
      simp

/-- Content refused for a cycle shows that at once. -/
theorem stage_circular {path : List Address} (h : (s.stage a content).2 = some (.circular path)) :
    (s.stage a content).1.cells[a]? = some ⟨content, .rejected .cycle, .known (.error .cycle)⟩ := by
  obtain ⟨kind, -, hreason, ⟨targets, hreads, -, -, -⟩ | ⟨-, -, hstage⟩⟩ := stage_cases s a content
  · rw [h] at hreason
    rw [Cell.Kind.reason?_eq_some.mp hreason.symm] at hreads
    contradiction
  · rw [hstage]
    exact Std.ExtTreeMap.getElem?_insert_self

theorem unknown_or_circular_stage (s : Sheet) (a : Address) (content : String) :
    (s.stage a content).1.Unknown a ∨ (s.stage a content).1.Circular a := by
  obtain ⟨kind, -, -, ⟨targets, -, -, -, hstage⟩ | ⟨-, -, hstage⟩⟩ := stage_cases s a content
  · rw [hstage]
    exact .inl ⟨_, Std.ExtTreeMap.getElem?_insert_self, fun v hv => by cases hv⟩
  · rw [hstage]
    exact .inr ⟨_, Std.ExtTreeMap.getElem?_insert_self, rfl⟩

/-- Content that fits a kind is taken for it if the edges that it calls for close no cycle. -/
theorem stage_of_fits {kind : Cell.Kind} (hfits : kind.Fits s.limits content)
    (hkind : kind ≠ .rejected .cycle) (hfree : ∀ targets, kind.reads? s.bounds = some targets →
      s.graph.cyclePath? a targets = none) :
    (s.stage a content).2.map Rejection.kind = kind.reason? ∧
      ∃ targets, kind.reads? s.bounds = some targets ∧
        (s.stage a content).1 = { s with
          cells := s.cells.insert a ⟨content, kind, .pending none⟩,
          graph := s.graph.setReads a targets } := by
  obtain ⟨kind', hfits', hreason, ⟨targets, hreads, -, -, hstage⟩ | ⟨-, ⟨f, hf, hpath⟩, -⟩⟩ :=
    stage_cases s a content
  · have hkind' : kind' ≠ .rejected .cycle := by
      rintro rfl
      contradiction
    obtain rfl := hfits.unique hfits' hkind hkind'
    exact ⟨hreason, targets, hreads, hstage⟩
  · obtain rfl := hfits.unique hf hkind (by simp)
    rw [hfree _ rfl] at hpath
    contradiction

end Interpret

theorem form?_insert {s t : Sheet} {a : Address} {content : String} {kind : Cell.Kind}
    {result : Cell.Result} (h : t.cells = s.cells.insert a ⟨content, kind, result⟩) (x : Address) :
    t.form? x = if x = a then some (content, kind) else s.form? x := by
  unfold form?
  rw [h, Std.ExtTreeMap.getElem?_insert]
  simp only [Std.LawfulEqOrd.compare_eq_iff_eq, eq_comm (a := x)]
  split <;> rfl

theorem form?_stage (s : Sheet) (a : Address) (content : String) :
    ∃ kind, kind.Fits s.limits content ∧ (s.stage a content).2.map Rejection.kind = kind.reason? ∧
      ∀ x, (s.stage a content).1.form? x = if x = a then some (content, kind) else s.form? x := by
  obtain ⟨kind, hfits, hreason, ⟨targets, -, -, -, hstage⟩ | ⟨rfl, -, hstage⟩⟩ :=
    stage_cases s a content
  · rw [hstage]
    exact ⟨kind, hfits, hreason, form?_insert rfl⟩
  · rw [hstage]
    exact ⟨.rejected .cycle, hfits, hreason, form?_insert rfl⟩

/-- What can be told of a refusal depends on its reason. -/
theorem all_isTellable_stage (s : Sheet) (a : Address) (content : String) :
    (s.stage a content).2.all (Rejection.isTellable a) =
      ((s.stage a content).2.map Rejection.kind).all (s.limits.tells a) := by
  have htells : ∀ r, (s.stage a content).2 = some r → r.isTellable a = s.limits.tells a r.kind := by
    intro r hr
    cases r with
    | malformed error =>
      rw [Limits.tells_of_ne (by simp [Rejection.kind]), Rejection.isTellable, Rejection.numbers,
        List.all_nil, Bool.and_true]
    | oversized first last limit =>
      rw [limit_of_stage hr, Rejection.kind, Limits.tells_invalidRange, Rejection.isTellable,
        Rejection.numbers, List.all_cons, List.all_nil, Bool.and_true]
    | circular path => rw [Rejection.isTellable_circular, Limits.tells_of_ne (by simp [Rejection.kind])]
  generalize (s.stage a content).2 = rejection at htells ⊢
  cases rejection with
  | none => rfl
  | some r => rw [Option.map_some, Option.all_some, Option.all_some, htells r rfl]

theorem all_isTellable_iff {s : Sheet} {a : Address} {content : String} {kind : Cell.Kind}
    (hreason : (s.stage a content).2.map Rejection.kind = kind.reason?) :
    (s.stage a content).2.all (Rejection.isTellable a) ↔
      ∀ reason, kind = .rejected reason → s.limits.tells a reason := by
  rw [all_isTellable_stage, hreason]
  cases kind <;> simp [Cell.Kind.reason?]

theorem all_isTellable_eq_false {s : Sheet} {a : Address} {content : String} {kind : Cell.Kind}
    (hreason : (s.stage a content).2.map Rejection.kind = kind.reason?) :
    (s.stage a content).2.all (Rejection.isTellable a) = false ↔
      ∃ reason, kind = .rejected reason ∧ s.limits.tells a reason = false := by
  rw [all_isTellable_stage, hreason]
  cases kind <;> simp [Cell.Kind.reason?]

/-- A formula is refused for a cycle only if there is a way from a cell that it names to its own. -/
theorem circular_stage {s : Sheet} {a x : Address} {content : String}
    (h : (s.stage a content).1.Circular x) :
    s.Circular x ∨ x = a ∧ ∃ f b, Formula.parse content = .ok f ∧ f.Names b ∧
      Relation.ReflTransGen s.graph.Reads b a := by
  obtain ⟨text, hx⟩ := circular_iff.mp h
  obtain ⟨kind, -, -, ⟨targets, hreads, -, -, hstage⟩ | ⟨-, ⟨f, hf, hpath⟩, hstage⟩⟩ :=
    stage_cases s a content
  · rw [hstage, form?_insert rfl] at hx
    split at hx
    · cases hx
      contradiction
    · exact .inl (circular_iff.mpr ⟨text, hx⟩)
  · rw [hstage, form?_insert rfl] at hx
    split at hx
    · rename_i hxa
      obtain ⟨b, hb, hway⟩ := Graph.isSome_cyclePath?.mp hpath
      exact .inr ⟨hxa, f, b, hf.2.1, (Formula.mem_addresses.mp hb).2, hway⟩
    · exact .inl (circular_iff.mpr ⟨text, hx⟩)

theorem form?_vacate (s : Sheet) (a x : Address) :
    (s.vacate a).form? x = if x = a then none else s.form? x := by
  unfold form? vacate
  rw [Std.ExtTreeMap.getElem?_erase]
  simp only [Std.LawfulEqOrd.compare_eq_iff_eq, eq_comm (a := x)]
  split <;> rfl

theorem circular_vacate {s : Sheet} {a x : Address} (h : (s.vacate a).Circular x) : s.Circular x := by
  obtain ⟨text, hx⟩ := circular_iff.mp h
  rw [form?_vacate] at hx
  split at hx
  · contradiction
  · exact circular_iff.mpr ⟨text, hx⟩

/-- Giving a cell a form, with the edges that it calls for, keeps a sheet in form. -/
theorem Formed.replace {s t : Sheet} (h : s.Formed) (a : Address)
    (e : Option (String × Cell.Kind)) (targets : AddressSet) (hlimits : t.limits = s.limits)
    (hsound : t.graph.Sound) (hacyclic : t.graph.Acyclic)
    (hform : ∀ x, t.form? x = if x = a then e else s.form? x)
    (hreads : ∀ x, t.graph.readsOf x = if x = a then targets else s.graph.readsOf x)
    (he : ∀ content kind, e = some (content, kind) →
      s.limits.Holds a ∧ Text.isAllBlank content = false ∧ kind.Fits s.limits content)
    (htargets : ∀ found, formReads? s.bounds e = some found → targets = found)
    (hinside : ∀ b ∈ targets, s.limits.Holds b) : t.Formed := by
  have hbounds : t.bounds = s.bounds := by
    unfold bounds
    rw [hlimits]
  refine ⟨hsound, hacyclic, ?_, ?_, ?_, ?_, ?_⟩
  · intro x p hx
    rw [hform] at hx
    rw [hlimits]
    split at hx
    · rename_i hxa
      exact hxa ▸ (he p.1 p.2 hx).1
    · exact h.inside x p hx
  · intro x p hx
    rw [hform] at hx
    split at hx
    · exact (he p.1 p.2 hx).2.1
    · exact h.visible x p hx
  · intro x p hx
    rw [hform] at hx
    rw [hlimits]
    split at hx
    · exact (he p.1 p.2 hx).2.2
    · exact h.fits x p hx
  · intro x found hx
    rw [hform, hbounds] at hx
    rw [hreads]
    split at hx
    · rename_i hxa
      rw [if_pos hxa]
      exact htargets found hx
    · rename_i hxa
      rw [if_neg hxa]
      exact h.reads x found hx
  · intro x b hxb
    rw [Graph.Reads, hreads] at hxb
    rw [hlimits]
    split at hxb
    · exact hinside b hxb
    · exact h.targets x b hxb

theorem Formed.stage {s : Sheet} (h : s.Formed) {a : Address} (ha : s.limits.Holds a)
    {content : String} (hcontent : Text.isAllBlank content = false) :
    (s.stage a content).1.Formed := by
  obtain ⟨kind, hfits, -, ⟨targets, hreads, hfree, hinside, hstage⟩ | ⟨rfl, -, hstage⟩⟩ :=
    stage_cases s a content
  · rw [hstage]
    refine h.replace a (some (content, kind)) targets rfl
      (h.sound.setReads a targets) (h.acyclic.setReads hfree) (form?_insert rfl)
      (fun x => Graph.readsOf_setReads s.graph a x targets) ?_ ?_ hinside
    · intro text taken heq
      cases heq
      exact ⟨ha, hcontent, hfits⟩
    · intro found hfound
      exact Option.some.inj (hreads.symm.trans hfound)
  · rw [hstage]
    refine h.replace a (some (content, .rejected .cycle)) (s.graph.readsOf a) rfl h.sound
      h.acyclic (form?_insert rfl) ?_ ?_ ?_ ?_
    · intro x
      split
      · rename_i hxa
        rw [hxa]
      · rfl
    · intro text taken heq
      cases heq
      exact ⟨ha, hcontent, hfits⟩
    · intro found hfound
      contradiction
    · exact fun b hb => h.targets a b hb

theorem Formed.vacate {s : Sheet} (h : s.Formed) (a : Address) : (s.vacate a).Formed := by
  refine h.replace a none ∅ rfl (h.sound.clearReads a)
    (h.acyclic.clearReads a) (form?_vacate s a) (Graph.readsOf_clearReads s.graph a) ?_ ?_ ?_
  · intro content kind heq
    contradiction
  · intro found hfound
    exact Option.some.inj hfound
  · intro b hb
    exact absurd hb Std.ExtTreeSet.not_mem_empty

/-- Emptying a vacant cell changes nothing. -/
theorem Formed.vacate_eq_self {s : Sheet} (h : s.Formed) {a : Address} (ha : a ∉ s.cells) :
    s.vacate a = s := by
  have hreads := h.reads a ∅ (by rw [form?_eq_none.mpr ha]; rfl)
  have hcells : s.cells.erase a = s.cells := by
    apply Std.ExtTreeMap.ext_getElem?
    intro x
    rw [Std.ExtTreeMap.getElem?_erase]
    split
    · rename_i hax
      rw [← Std.LawfulEqOrd.eq_of_compare hax, Std.ExtTreeMap.getElem?_eq_none ha]
    · rfl
  unfold Sheet.vacate
  rw [h.sound.clearReads_eq_self hreads, hcells]

end Sheet
end Spreadsheet
