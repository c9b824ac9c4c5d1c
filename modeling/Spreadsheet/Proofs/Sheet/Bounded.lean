import Spreadsheet.Proofs.Formula.Precision
import Spreadsheet.Proofs.Sheet.History

/-! The values of cells. Every number among them has a text, in every history and in whatever state a
calculation that broke off has left a cell, since a formula makes only such numbers of such numbers. Within
the greatest precision a pass over any cells therefore comes to its end. -/
namespace Spreadsheet

theorem bounded_of_numberOfText? {cs : List Char} {n : Number} (h : numberOfText? cs = some n) :
    n.Bounded := by
  unfold numberOfText? at h
  split at h
  · contradiction
  split at h
  · rename_i i hi
    cases h
    unfold Number.int? at hi
    dsimp only at hi
    split at hi
    · rename_i hdigits
      cases hi
      rw [Bool.and_eq_true, decide_eq_true_eq] at hdigits
      have hwritable : Number.isWritable (Text.numeral (Number.splitSign cs).2) :=
        Number.isWritable_of_natOfDigits (if_neg (Nat.not_lt.mpr hdigits.2))
      exact Number.isWritable_signed hwritable _
    · contradiction
  · split at h
    · simp only [Option.ite_none_right_eq_some] at h
      obtain ⟨hfinite, hn⟩ := h
      cases hn
      exact hfinite
    · contradiction

/-- The number that a text spells has a text. -/
theorem Scalar.bounded_of_ofText {text : String} {constant : Scalar} (h : ofText text = constant) :
    constant.Bounded := by
  rw [← h]
  unfold ofText
  dsimp only
  split
  · trivial
  · split
    · rename_i hnumber
      exact bounded_of_numberOfText? hnumber
    · trivial

namespace Sheet

/-- Whether every number that a cell shows has a text. -/
def Bounded (s : Sheet) : Prop :=
  ∀ (a : Address) (c : Cell), s.cells[a]? = some c → ∀ v, c.value? = some v → v.Bounded

variable {s t : Sheet} {a : Address}

theorem bounded_of_vacant (h : ∀ a : Address, s.cells[a]? = none) : s.Bounded := by
  intro a c hc
  rw [h] at hc
  contradiction

theorem Bounded.congr (h : s.Bounded) (hcells : t.cells = s.cells) : t.Bounded := by
  unfold Bounded
  rwa [hcells]

theorem Bounded.scope (h : s.Bounded) : s.scope.Bounded := by
  intro a v hv
  obtain ⟨c, hc, hseen⟩ := Option.bind_eq_some_iff.mp hv
  unfold Cell.Result.seen? at hseen
  split at hseen
  · cases hseen
    trivial
  · exact h a c hc v hseen

theorem Bounded.insert (h : s.Bounded) {c : Cell} (hc : ∀ v, c.value? = some v → v.Bounded)
    (ht : t.cells = s.cells.insert a c) : t.Bounded := by
  intro x d hd
  rw [ht, Std.ExtTreeMap.getElem?_insert] at hd
  split at hd
  · cases hd
    exact hc
  · exact h x d hd

theorem Bounded.stage (h : s.Bounded) (a : Address) (content : String) :
    (s.stage a content).1.Bounded := by
  obtain ⟨kind, -, -, ⟨targets, -, -, -, hstage⟩ | ⟨-, -, hstage⟩⟩ := stage_cases s a content
  · rw [hstage]
    exact h.insert (fun v hv => by cases hv) rfl
  · rw [hstage]
    exact h.insert (fun v hv => by cases hv; trivial) rfl

theorem Bounded.vacate (h : s.Bounded) (a : Address) : (s.vacate a).Bounded := by
  intro x c hc
  unfold Sheet.vacate at hc
  rw [Std.ExtTreeMap.getElem?_erase] at hc
  split at hc
  · contradiction
  · exact h x c hc

theorem Staged.bounded {touched : AddressSet} (h : Staged s touched t) (hs : s.Bounded) :
    t.Bounded := by
  induction h with
  | start => exact hs
  | stage a content _ _ _ _ ih => exact ih.stage a content
  | vacate a _ ih => exact ih.vacate a

/-! ## Calculation -/

theorem Formed.written (hs : s.Formed) {c : Cell} (hc : s.cells[a]? = some c) {f : Formula}
    (hf : c.kind = .formula f) : f.Written :=
  Formula.written_of_parse (hs.parse_of_formula? hc (Cell.formula?_eq_some.mpr hf))

theorem Bounded.valueOf (h : s.Bounded) (hs : s.Formed) {c : Cell} (hc : s.cells[a]? = some c)
    {v : Value} (hv : s.valueOf c = .ok v) : v.Bounded := by
  unfold Sheet.valueOf at hv
  split at hv
  · generalize hconstant : Scalar.ofText c.content = constant at hv
    cases hv
    exact Scalar.bounded_of_ofText hconstant
  · rename_i f hf
    exact Formula.bounded_of_evaluate h.scope (hs.written hc hf) hv
  · cases hv
    trivial

/-- Within the greatest precision every cell has a value. -/
theorem Bounded.exists_valueOf (h : s.Bounded) (hs : s.Formed)
    (hprecision : s.limits.precision.val ≤ Number.maxPrecision) {c : Cell}
    (hc : s.cells[a]? = some c) : ∃ v, s.valueOf c = .ok v := by
  unfold Sheet.valueOf
  split
  · exact ⟨_, rfl⟩
  · rename_i f hf
    refine Formula.exists_evaluate h.scope (hs.written hc hf) ⟨?_, hprecision⟩
    exact Int.le_trans (by omega) s.limits.precision.property
  · exact ⟨_, rfl⟩

theorem Bounded.calculate (h : s.Bounded) (hs : s.Formed) (ht : s.calculate a = .ok t) :
    t.Bounded := by
  rcases calculate_cases s a with ⟨-, heq⟩ | ⟨c, hc, ⟨v, hv, heq⟩ | ⟨fault, -, heq⟩⟩
  · rw [heq] at ht
    cases ht
    exact h
  · rw [heq] at ht
    cases ht
    refine h.insert (fun w hw => ?_) rfl
    cases hw
    exact h.valueOf hs hc hv
  · rw [heq] at ht
    contradiction

theorem Bounded.reconsider (h : s.Bounded) {f : Cell.Result → Cell.Result}
    (hf : ∀ r, (f r).value? = r.value?) (a : Address) : (s.reconsider f a).Bounded := by
  intro x c hc v hv
  unfold Sheet.reconsider at hc
  rw [Std.ExtTreeMap.getElem?_modify] at hc
  split at hc
  · rename_i hax
    obtain ⟨d, hd, rfl⟩ := Option.map_eq_some_iff.mp hc
    exact h a d hd v (by rwa [Cell.value?, hf] at hv)
  · exact h x c hc v hv

theorem Bounded.postpone (h : s.Bounded) (a : Address) : (s.postpone a).Bounded :=
  h.reconsider (f := fun r => .pending r.value?) (fun _ => rfl) a

theorem Bounded.breakOff (h : s.Bounded) (a : Address) : (s.breakOff a).Bounded :=
  h.reconsider (f := fun r => .broken r.value?) (fun _ => rfl) a

/-- A pass leaves bounded values, also where it breaks off. -/
theorem Bounded.calculateAll (h : s.Bounded) (hs : s.Formed) (order : List Address) :
    (∀ t, s.calculateAll order = .ok t → t.Bounded) ∧
      ∀ broken, s.calculateAll order = .error broken → broken.sheet.Bounded := by
  induction order generalizing s with
  | nil =>
    refine ⟨fun t ht => ?_, fun broken hbroken => ?_⟩
    · cases ht
      exact h
    · contradiction
  | cons a rest ih =>
    rw [calculateAll_cons]
    split
    · rename_i u hu
      exact ih (h.calculate hs hu) ((calculate_eq_ok hu).1.formed hs)
    · refine ⟨fun t ht => by contradiction, fun broken hbroken => ?_⟩
      cases hbroken
      exact List.foldlRecOn rest _ (h.breakOff a) fun u hu b _ => hu.postpone b

theorem Bounded.recalculate (h : s.Bounded) (hs : s.Formed) (cells : AddressSet) :
    (∀ t, s.recalculate cells = .ok t → t.Bounded) ∧
      ∀ broken, s.recalculate cells = .error broken → broken.sheet.Bounded := by
  obtain ⟨hok, hbroken⟩ := h.calculateAll hs (s.graph.schedule (cells.filter fun a =>
    s.cells.contains a)).order
  rw [recalculate_eq]
  refine ⟨fun t ht => ?_, fun broken hfail => hbroken broken (map_eq_error.mp hfail)⟩
  obtain ⟨u, hu, rfl⟩ := map_eq_ok.mp ht
  exact hok u hu

/-- Within the greatest precision no pass breaks off. -/
theorem exists_recalculate (hs : s.Formed) (hbounded : s.Bounded) (cells : AddressSet)
    (hprecision : s.limits.precision.val ≤ Number.maxPrecision) :
    ∃ t, s.recalculate cells = .ok t := by
  have hcalculateAll : ∀ (order : List Address) (u : Sheet), Alike s u → u.Bounded →
      ∃ t, u.calculateAll order = .ok t := by
    intro order
    induction order with
    | nil => exact fun u _ _ => ⟨u, rfl⟩
    | cons a order ih =>
      intro u hu hvalues
      have hformed := hu.formed hs
      rw [calculateAll_cons]
      rcases calculate_cases u a with ⟨-, heq⟩ | ⟨c, hc, ⟨v, -, heq⟩ | ⟨fault, hfault, -⟩⟩
      · rw [heq]
        exact ih u hu hvalues
      · have hnext := hvalues.calculate hformed heq
        rw [heq]
        exact ih _ (hu.trans (alike_of_known hc _)) hnext
      · obtain ⟨v, hv⟩ := hvalues.exists_valueOf hformed (hu.limits ▸ hprecision) hc
        rw [hv] at hfault
        contradiction
  obtain ⟨t, ht⟩ := hcalculateAll (s.graph.schedule (cells.filter fun a => s.cells.contains a)).order
    s (.refl s) hbounded
  rw [recalculate_eq]
  dsimp only
  rw [ht]
  exact ⟨_, rfl⟩

/-! ## Edits -/

theorem Edits.bounded {base u : Sheet} {fault : Option Fault} (h : Edits base u fault)
    (hformed : base.Formed) (hbounded : base.Bounded) : u.Bounded := by
  obtain ⟨touched, t, hstaged, hend | ⟨⟨a, content, -, -, -, rfl⟩, -⟩⟩ := h
  · have ht := hstaged.bounded hbounded
    obtain ⟨hok, hbroken⟩ := ht.recalculate (hstaged.formed hformed) (t.affected touched)
    cases hend with
    | passed hpass _ => exact hok u hpass
    | broken hpass => exact hbroken _ hpass
    | idle _ _ hcells _ _ => exact ht.congr hcells
  · exact (hstaged.bounded hbounded).stage a content

theorem bounded_emptied (s : Sheet) (e : LineEdit) : (s.emptied e).Bounded :=
  bounded_of_vacant fun a => by simp [emptied]

/-- Where edits start from. -/
theorem Bounded.base (h : s.Bounded) {base : Sheet} (hbase : base = s ∨ ∃ edit, base = s.emptied edit) :
    base.Bounded := by
  rcases hbase with rfl | ⟨edit, rfl⟩
  · exact h
  · exact bounded_emptied s edit

theorem Bounded.perform (h : s.Bounded) (hs : s.Formed) (e : Edit) : (s.perform e).sheet.Bounded := by
  obtain ⟨base, hbase, hedits⟩ := edits_perform hs e
  exact hedits.bounded (hs.base hbase) (h.base hbase)

theorem bounded_new (limits : Limits) : (new limits).Bounded :=
  bounded_of_vacant fun a => by simp [new]

theorem bounded_run (limits : Limits) (history : List Edit) : ((new limits).run history).Bounded := by
  induction history using List.reverseRecOn with
  | nil => exact bounded_new limits
  | append_singleton history e ih =>
    rw [run_snoc]
    exact ih.perform (formed_run limits history) e

end Sheet
end Spreadsheet
