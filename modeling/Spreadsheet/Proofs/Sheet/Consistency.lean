import Spreadsheet.Proofs.Sheet.Bounded
import Spreadsheet.Proofs.Sheet.Refresh

/-! Consistency: what every history that is not interrupted keeps. Each cell shows a value, and unless it
waits behind a cell refused for a cycle, it is the one that its content has over the values of the
others. -/
namespace Spreadsheet.Sheet

/-- Whether every cell shows its value over the values of the others, or reads a cell refused for a
cycle. -/
structure Consistent (s : Sheet) : Prop where
  state : ∀ (a : Address) (c : Cell), s.cells[a]? = some c → c.state = .clean ∨ c.state = .errored
  errored : ∀ (a : Address) (c : Cell), s.cells[a]? = some c →
    (c.state = .errored ↔ ∃ v, c.value? = some v ∧ v.isError)
  value : ∀ (a : Address) (c : Cell), s.cells[a]? = some c →
    (∃ v, c.value? = some v ∧ s.valueOf c = .ok v) ∨ s.Excused a

theorem state_of_known {c : Cell} {v : Value} (h : c.result = .known v) :
    c.state = if v.isError then .errored else .clean := by
  unfold Cell.state
  rw [h]

theorem known_of_state {c : Cell} (h : c.state = .clean ∨ c.state = .errored) :
    ∃ v, c.result = .known v := by
  unfold Cell.state at h
  split at h
  · simp at h
  · simp at h
  · exact ⟨_, by assumption⟩

theorem consistent_iff {s : Sheet} :
    s.Consistent ↔
      ∀ (a : Address) (c : Cell), s.cells[a]? = some c →
        ∃ v, c.result = .known v ∧ (s.valueOf c = .ok v ∨ s.Excused a) := by
  constructor
  · intro h a c hc
    obtain ⟨v, hv⟩ := known_of_state (h.state a c hc)
    refine ⟨v, hv, ?_⟩
    rcases h.value a c hc with ⟨w, hw, hvalue⟩ | hexcused
    · unfold Cell.value? at hw
      rw [hv] at hw
      cases hw
      exact .inl hvalue
    · exact .inr hexcused
  · intro h
    have hvalue : ∀ (c : Cell) (v : Value), c.result = .known v → c.value? = some v := by
      intro c v hv
      unfold Cell.value?
      rw [hv]
      rfl
    refine ⟨fun a c hc => ?_, fun a c hc => ?_, fun a c hc => ?_⟩
    · obtain ⟨v, hv, -⟩ := h a c hc
      rw [state_of_known hv]
      split
      · exact .inr rfl
      · exact .inl rfl
    · obtain ⟨v, hv, -⟩ := h a c hc
      rw [state_of_known hv, hvalue c v hv]
      split <;> simp_all
    · obtain ⟨v, hv, hsettled | hexcused⟩ := h a c hc
      · exact .inl ⟨v, hvalue c v hv, hsettled⟩
      · exact .inr hexcused

theorem Consistent.not_unknown {s : Sheet} (h : s.Consistent) (a : Address) : ¬s.Unknown a := by
  rintro ⟨c, hc, hunknown⟩
  obtain ⟨v, hv, -⟩ := consistent_iff.mp h a c hc
  exact hunknown v hv

/-- Where no cell is refused for a cycle, consistent cells are settled. -/
theorem Consistent.settled {s : Sheet} (h : s.Consistent) (hfree : ∀ a, ¬s.Circular a) (a : Address) :
    s.Settled a := by
  intro c hc
  obtain ⟨v, hv, hvalue | ⟨b, -, hb⟩⟩ := consistent_iff.mp h a c hc
  · exact ⟨v, hv, hvalue⟩
  · exact absurd hb (hfree b)

theorem consistent_of_vacant {s : Sheet} (h : ∀ a : Address, s.cells[a]? = none) : s.Consistent := by
  rw [consistent_iff]
  intro a c hc
  rw [h] at hc
  contradiction

theorem Refreshed.consistent {s t : Sheet} {touched : AddressSet} (h : Refreshed touched s t)
    (hs : s.Formed) (hconsistent : s.Consistent) : t.Consistent := by
  rw [consistent_iff] at hconsistent ⊢
  intro a c hc
  by_cases ha : t.Affected touched a
  · rcases h.settled a ha with hsettled | hexcused
    · obtain ⟨v, hv, hvalue⟩ := hsettled c hc
      exact ⟨v, hv, .inl hvalue⟩
    · by_cases hunknown : t.Unknown a
      · obtain ⟨v, hv, -⟩ := hconsistent a c (h.unknown a hunknown ▸ hc)
        exact ⟨v, hv, .inr hexcused⟩
      · obtain ⟨v, hv⟩ := known_of_not_unknown hunknown hc
        exact ⟨v, hv, .inr hexcused⟩
  · have hc' := hc
    rw [h.kept a ha] at hc'
    obtain ⟨v, hv, hvalue | hexcused⟩ := hconsistent a c hc'
    · have hsettled : s.Settled a := by
        intro d hd
        rw [hc'] at hd
        cases hd
        exact ⟨v, hv, hvalue⟩
      obtain ⟨w, hw, hvalue'⟩ := h.settled_of_before hs ha hsettled c hc
      exact ⟨w, hw, .inl hvalue'⟩
    · exact ⟨v, hv, .inr (h.excused_of_before ha hexcused)⟩

theorem Consistent.edits {s base u : Sheet} {fault : Option Fault} (h : s.Consistent) (hs : s.Formed)
    (hbase : base = s ∨ ∃ edit, base = s.emptied edit) (hedits : Edits base u fault)
    (hcalm : ∀ f, fault = some f → f.interrupts = false) : u.Consistent := by
  obtain ⟨touched, hrefreshed⟩ := hedits.refreshed (hs.base hbase) hcalm
  rcases hbase with rfl | ⟨edit, rfl⟩
  · exact hrefreshed.consistent hs h
  · exact hrefreshed.consistent formed_of_empty (consistent_of_vacant fun a => by simp [emptied])

theorem Consistent.perform {s : Sheet} (h : s.Consistent) (hs : s.Formed) {e : Edit}
    (he : ∀ fault, (s.perform e).answer = some fault → fault.interrupts = false) :
    (s.perform e).sheet.Consistent := by
  obtain ⟨base, hbase, hedits⟩ := edits_perform hs e
  exact h.edits hs hbase hedits he

theorem consistent_of_uninterrupted {limits : Limits} {history : List Edit}
    (h : (new limits).Uninterrupted history) : ((new limits).run history).Consistent := by
  induction history using List.reverseRecOn with
  | nil => exact consistent_of_vacant fun a => by simp [run, new]
  | append_singleton history e ih =>
    rw [uninterrupted_snoc] at h
    rw [run_snoc]
    exact (ih h.1).perform (formed_run limits history) h.2

/-! ## Interruptions -/

/-- An edit that is interrupted leaves a cell without a value, unless it stops at a formula refused for a
cycle. -/
theorem Edits.unknown_of_interrupts {base u : Sheet} {fault : Option Fault} (h : Edits base u fault)
    {f : Fault} (hf : fault = some f) (hinterrupts : f.interrupts = true)
    (hcircular : f = .halted → ∀ a, ¬u.Circular a) : ∃ a, u.Unknown a := by
  obtain ⟨touched, t, -, hend | ⟨⟨a, content, -, -, -, rfl⟩, hhalted⟩⟩ := h
  · cases hend with
    | passed _ hcalm =>
      rw [hcalm f hf] at hinterrupts
      contradiction
    | broken hpass => exact (recalculate_eq_error hpass).2
    | idle _ _ _ _ hcalm =>
      rw [hcalm f hf] at hinterrupts
      contradiction
  · rw [hhalted] at hf
    cases hf
    rcases unknown_or_circular_stage t a content with hunknown | hcircle
    · exact ⟨_, hunknown⟩
    · exact absurd hcircle (hcircular rfl _)

theorem isWritable_of_le {i n : Int} (hi : 0 ≤ i) (hle : i ≤ n) (hn : Number.isWritable n) :
    Number.isWritable i := by
  unfold Number.isWritable at hn ⊢
  generalize Number.tenTo Number.maxDigits = limit at hn ⊢
  rw [decide_eq_true_eq] at hn ⊢
  omega

theorem isWritable_of_holds {l : Limits} {a : Address} (ha : l.Holds a)
    (hrows : Number.isWritable l.rows) : a.isWritable := by
  unfold Limits.Holds at ha
  unfold Address.isWritable
  unfold Number.isWritable at hrows ⊢
  generalize Number.tenTo Number.maxDigits = limit at hrows ⊢
  simp only [decide_eq_true_eq] at hrows ⊢
  omega

/-- Within the greatest precision an edit is interrupted only where it cannot tell of a refusal. -/
theorem Edits.halted_of_interrupts {base u : Sheet} {fault : Option Fault} (h : Edits base u fault)
    (hformed : base.Formed) (hbounded : base.Bounded)
    (hprecision : base.limits.precision.val ≤ Number.maxPrecision) {f : Fault} (hf : fault = some f)
    (hinterrupts : f.interrupts) :
    f = .halted ∧ ∃ touched t, Staged base touched t ∧ Halted t u := by
  obtain ⟨touched, t, hstaged, hend | ⟨hhalted, hfault⟩⟩ := h
  · cases hend with
    | passed _ hcalm | idle _ _ _ _ hcalm => exact absurd hinterrupts (by simp [hcalm f hf])
    | broken hpass =>
      obtain ⟨v, hv⟩ := exists_recalculate (hstaged.formed hformed) (hstaged.bounded hbounded)
        (t.affected touched) (hstaged.limits ▸ hprecision)
      rw [hv] at hpass
      cases hpass
  · cases hf.symm.trans hfault
    exact ⟨rfl, touched, t, hstaged, hhalted⟩

/-- Nothing interrupts an edit if the precision is not too great and the numbers of all rows are short
enough to write, and so is the limit for ranges if one is over it. -/
theorem Edits.calm {base u : Sheet} {fault : Option Fault} (h : Edits base u fault)
    (hformed : base.Formed) (hbounded : base.Bounded)
    (hprecision : base.limits.precision.val ≤ Number.maxPrecision)
    (hrows : Number.isWritable base.limits.rows) (hranges : u.TellsRanges) :
    ∀ f, fault = some f → f.interrupts = false := by
  intro f hf
  rw [← Bool.not_eq_true]
  intro hinterrupts
  obtain ⟨-, touched, t, hstaged, hhalted⟩ :=
    h.halted_of_interrupts hformed hbounded hprecision hf hinterrupts
  obtain ⟨a, hin, hrow | ⟨hover, hlimit⟩⟩ := hhalted.exists_unwritable
  · rw [isWritable_of_holds (hstaged.limits ▸ hin) hrows] at hrow
    cases hrow
  · have hwritable := hranges ⟨a, hover⟩
    rw [h.limits hformed, ← hstaged.limits, hlimit] at hwritable
    cases hwritable

theorem halted_of_restructure {s : Sheet} (hs : s.Formed) (hbounded : s.Bounded) {e : LineEdit}
    (hindex : 0 ≤ e.index) (hlast : 0 < e.count ∨ e.stop ≤ s.lineCount e.axis)
    (hprecision : s.limits.precision.val ≤ Number.maxPrecision) {f : Fault}
    (hf : faultOf (s.restructure e).answer = some f) (hinterrupts : f.interrupts) :
    f = .halted ∧ ∃ base touched t, (base = s ∨ base = s.emptied e) ∧ Staged base touched t ∧
      Halted t (s.restructure e).sheet := by
  obtain ⟨base, hbase, hedits⟩ := edits_restructure hs hindex hlast
  have hbase' : base = s ∨ ∃ edit, base = s.emptied edit := hbase.imp_right fun heq => ⟨e, heq⟩
  have hprecision' : base.limits.precision.val ≤ Number.maxPrecision := by
    rcases hbase with rfl | rfl
    · exact hprecision
    · change (s.limits.edit e).precision.val ≤ _
      rwa [Limits.precision_edit]
  obtain ⟨rfl, touched, t, hstaged, hhalted⟩ :=
    hedits.halted_of_interrupts (hs.base hbase') (hbounded.base hbase') hprecision' hf hinterrupts
  exact ⟨rfl, base, touched, t, hbase, hstaged, hhalted⟩

/-- Nothing interrupts an insertion or deletion if the precision is not too great and the numbers of all
rows, before and after it, and the limit for ranges are short enough to write. -/
theorem restructure_calm {s : Sheet} (hs : s.Formed) (hbounded : s.Bounded) {e : LineEdit}
    (hindex : 0 ≤ e.index) (hlast : 0 < e.count ∨ e.stop ≤ s.lineCount e.axis)
    (hprecision : s.limits.precision.val ≤ Number.maxPrecision) (hrows : Number.isWritable s.limits.rows)
    (hrows' : Number.isWritable (s.limits.edit e).rows) (hranges : Number.isWritable s.limits.rangeCells) :
    ∀ f, faultOf (s.restructure e).answer = some f → f.interrupts = false := by
  intro f hf
  rw [← Bool.not_eq_true]
  intro hinterrupts
  obtain ⟨-, base, touched, t, hbase, hstaged, hhalted⟩ :=
    halted_of_restructure hs hbounded hindex hlast hprecision hf hinterrupts
  have hwritable : Number.isWritable base.limits.rows ∧ Number.isWritable base.limits.rangeCells := by
    rcases hbase with rfl | rfl
    · exact ⟨hrows, hranges⟩
    · exact ⟨hrows', Limits.rangeCells_edit.symm ▸ hranges⟩
  rw [← hstaged.limits] at hwritable
  obtain ⟨a, hin, hrow | ⟨-, hlimit⟩⟩ := hhalted.exists_unwritable
  · exact Bool.false_ne_true (hrow.symm.trans (isWritable_of_holds hin hwritable.1))
  · exact Bool.false_ne_true (hlimit.symm.trans hwritable.2)

/-- The bounds from which an edit starts are those that it leaves, and the precision is the former
one. -/
theorem precision_perform {s : Sheet} (hs : s.Formed) (e : Edit) :
    ∃ base, (base = s ∨ ∃ edit, base = s.emptied edit) ∧
      Edits base (s.perform e).sheet (s.perform e).answer ∧
      (s.perform e).sheet.limits = base.limits ∧
      base.limits.precision = s.limits.precision := by
  obtain ⟨base, hbase, hedits⟩ := edits_perform hs e
  refine ⟨base, hbase, hedits, hedits.limits (hs.base hbase), ?_⟩
  rcases hbase with rfl | ⟨edit, rfl⟩
  · rfl
  · unfold emptied Limits.edit
    cases edit.axis <;> rfl

theorem precision_run (limits : Limits) (history : List Edit) :
    ((new limits).run history).limits.precision = limits.precision := by
  induction history using List.reverseRecOn with
  | nil => rfl
  | append_singleton history e ih =>
    obtain ⟨base, -, -, hlimits, hprecision⟩ := precision_perform (formed_run limits history) e
    rw [run_snoc, hlimits, hprecision, ih]

theorem uninterrupted_of_writable {limits : Limits} {history : List Edit}
    (hprecision : limits.precision.val ≤ Number.maxPrecision)
    (hwritable : ∀ past, past <+: history →
      Number.isWritable ((new limits).run past).limits.rows ∧ ((new limits).run past).TellsRanges) :
    (new limits).Uninterrupted history := by
  induction history using List.reverseRecOn with
  | nil => trivial
  | append_singleton history e ih =>
    rw [uninterrupted_snoc]
    refine ⟨ih fun past hpast => hwritable past (hpast.trans (List.prefix_append history [e])), ?_⟩
    have hs := formed_run limits history
    obtain ⟨base, hbase, hedits, hlimits, hkept⟩ := precision_perform hs e
    obtain ⟨hrows, hranges⟩ := hwritable _ List.prefix_rfl
    rw [run_snoc] at hrows hranges
    refine hedits.calm (hs.base hbase) ((bounded_run limits history).base hbase) ?_ (hlimits ▸ hrows)
      hranges
    rw [hkept, precision_run]
    exact hprecision

/-- Cells set one after the other. -/
def setEach (items : List (Address × String)) : List Edit :=
  items.map fun (a, content) => .set a.given content

theorem limits_setEach {s : Sheet} (hs : s.Formed) (items : List (Address × String)) :
    (s.run (setEach items)).limits = s.limits := by
  induction items generalizing s with
  | nil => rfl
  | cons item items ih =>
    have hedits := edits_set hs item.1.given item.2
    rw [← hedits.limits hs]
    exact ih (hedits.formed hs)

/-- A text that halts the edit of its cell is refused for a reason that cannot be told of. -/
theorem exists_rejected_of_set {s : Sheet} (hs : s.Formed) {place : Address.Given} {content : String}
    (h : faultOf (s.set place (.text content)).answer = some .halted) :
    ∃ a reason, s.limits.Holds a ∧ (Cell.Kind.rejected reason).Fits s.limits content ∧
      s.limits.tells a reason = false := by
  cases hplace : s.locate place with
  | error fault =>
    unfold set at h
    rw [hplace] at h
    cases h
    cases refuses_of_locate hplace
  | ok a =>
    have hentered := entered_set hs hplace content
    generalize s.set place (.text content) = e at hentered h
    cases hentered with
    | ended _ hend _ =>
      rw [h] at hend
      generalize e.sheet = u at hend
      cases hend with
      | passed _ hcalm | idle _ _ _ _ hcalm => cases hcalm _ rfl
    | halted hput _ _ =>
      obtain ⟨reason, hfits, hlong⟩ := exists_rejected_of_put hput
      exact ⟨a, reason, holds_of_locate hplace, hfits, hlong⟩

theorem uninterrupted_setEach {s : Sheet} (hs : s.Formed) (hbounded : s.Bounded)
    (hprecision : s.limits.precision.val ≤ Number.maxPrecision)
    (hrows : Number.isWritable s.limits.rows) {items : List (Address × String)}
    (hranges : s.limits.TellsRanges items) : s.Uninterrupted (setEach items) := by
  induction items generalizing s with
  | nil => trivial
  | cons item items ih =>
    have hedits := edits_set hs item.1.given item.2
    have hlimits := hedits.limits hs
    refine ⟨fun f hf => ?_, ih (hedits.formed hs) (hedits.bounded hs hbounded) (hlimits ▸ hprecision)
      (hlimits ▸ hrows) (hlimits ▸ fun ⟨later, hlater, hfits⟩ =>
        hranges ⟨later, List.mem_cons_of_mem _ hlater, hfits⟩)⟩
    rw [← Bool.not_eq_true]
    intro hinterrupts
    obtain ⟨rfl, -⟩ := hedits.halted_of_interrupts hs hbounded hprecision hf hinterrupts
    obtain ⟨a, reason, hin, hfits, hlong⟩ := exists_rejected_of_set hs hf
    have htold := hranges.tells List.mem_cons_self hfits (isWritable_of_holds hin hrows)
    rw [hlong] at htold
    cases htold

/-- The limits of a sheet without settings. -/
def standard : Limits :=
  ⟨⟨1048576, by decide⟩, ⟨16384, by decide⟩, ⟨1000000, by decide⟩, ⟨10, by decide⟩⟩

theorem limits_defaults : Settings.defaults.limits = .ok standard := rfl

/-- Every history that is not interrupted leaves a consistent sheet, and where no cell is refused for a
cycle, one in which all cells show their values over each other. An edit that is interrupted leaves a
sheet that is not consistent, unless it stops at a formula refused for a cycle. Nothing is interrupted as
long as the precision is not too great and the numbers of all rows are short enough to write, and so is
the limit for ranges if one is over it. -/
theorem consistent_run (limits : Limits) (history : List Edit) :
    ((new limits).Uninterrupted history →
        ((new limits).run history).Consistent ∧
          ((∀ a, ¬((new limits).run history).Circular a) →
            ∀ (a : Address) (c : Cell), ((new limits).run history).cells[a]? = some c →
              ∃ v, c.value? = some v ∧ ((new limits).run history).valueOf c = .ok v)) ∧
      (∀ e fault, (((new limits).run history).perform e).answer = some fault →
        fault.interrupts = true →
          (fault = .halted → ∀ a, ¬((new limits).run (history ++ [e])).Circular a) →
            ¬((new limits).run (history ++ [e])).Consistent) ∧
      (limits.precision.val ≤ Number.maxPrecision →
        (∀ past, past <+: history → Number.isWritable ((new limits).run past).limits.rows ∧
          ((new limits).run past).TellsRanges) →
            (new limits).Uninterrupted history) := by
  refine ⟨fun h => ?_, fun e fault he hinterrupts hcircular => ?_, uninterrupted_of_writable⟩
  · have hconsistent := consistent_of_uninterrupted h
    refine ⟨hconsistent, fun hfree a c hc => ?_⟩
    obtain ⟨v, hv, hvalue⟩ := hconsistent.settled hfree a c hc
    refine ⟨v, ?_, hvalue⟩
    unfold Cell.value?
    rw [hv]
    rfl
  · obtain ⟨base, -, hedits⟩ := edits_perform (formed_run limits history) e
    rw [run_snoc] at hcircular ⊢
    obtain ⟨a, hunknown⟩ := hedits.unknown_of_interrupts he hinterrupts hcircular
    exact fun hconsistent => hconsistent.not_unknown a hunknown

/-- A cycle leaves a consistent sheet, too. -/
theorem consistent_circle :
    ((new standard).run (setEach [(⟨0, 0⟩, "=B1"), (⟨0, 1⟩, "=A1"), (⟨0, 2⟩, "=B1+1")])).Consistent :=
  ((consistent_run standard _).1
    (uninterrupted_setEach formed_of_empty (bounded_new _) (by decide +kernel) (by decide +kernel)
      fun _ => by decide +kernel)).1

end Spreadsheet.Sheet
