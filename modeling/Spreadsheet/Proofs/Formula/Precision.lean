import Spreadsheet.Proofs.Formula.Parsed
import Spreadsheet.Proofs.Formula.Yielding

/-! Within the greatest precision every formula has a value, unless it meets a whole number or a row too long
to write. Over cells whose numbers have texts the number of a formula has one, too, whatever the
precision: a constant is one that text can spell, and all else is carried by the calculations. -/
namespace Spreadsheet

theorem Value.Spellable.bounded {v : Value} (h : v.Spellable) : v.Bounded := by
  match v with
  | .number (.int i) => exact h.2
  | .number (.float (.finite s m)) => rfl
  | .number (.float (.infinite s)) => exact h.elim
  | .number (.float .nan) => exact h.elim
  | .text s => trivial
  | .bool b => trivial
  | .error kind => trivial

/-- Whether a number in a cell is a float or short enough to write. -/
def Value.Legible : Value → Prop
  | .number n => n.Legible
  | _ => True

theorem Value.Bounded.legible {v : Value} (h : v.Bounded) : v.Legible := by
  match v with
  | .number n => exact Number.Bounded.legible h
  | .text s => trivial
  | .bool b => trivial
  | .error kind => trivial

/-! ## Numbers with texts -/

namespace Regime

variable {precision : Int}

/-- Numbers all of which have texts within the greatest precision, so that none is missed there. -/
def writing (precision : Int) (number : Number → Prop) (hcarried : ∀ n, n.Carried → number n)
    (hcounted : ∀ n : Nat, n ≤ Number.maxCount → number (.int n)) (hlegible : ∀ n, number n → n.Legible) :
    Regime precision where
  number := number
  failure
    | .precision _ => ¬Number.Precise precision
    | _ => True
  carried := hcarried _
  counted := hcounted _
  own _ := trivial
  overflow := trivial
  unwritten {n fault} hn hfault hprecision := by
    obtain ⟨text, htext⟩ := (hlegible n hn).exists_display hprecision
    rw [htext] at hfault
    contradiction

def bounded (precision : Int) : Regime precision :=
  writing precision Number.Bounded (fun _ => Number.Carried.bounded)
    (fun _ => Number.bounded_of_le_maxCount) fun _ => Number.Bounded.legible

def legible (precision : Int) : Regime precision :=
  writing precision Number.Legible (fun _ h => h.bounded.legible)
    (fun _ h => (Number.bounded_of_le_maxCount h).legible) fun _ => id

theorem admitsContent_bounded {v : Value} : (bounded precision).AdmitsContent v ↔ v.Bounded := by
  match v with
  | .number n => exact Iff.rfl
  | .text s => exact Iff.rfl
  | .bool b => exact Iff.rfl
  | .error kind => exact Iff.rfl

theorem admitsContent_legible {v : Value} : (legible precision).AdmitsContent v ↔ v.Legible := by
  match v with
  | .number n => exact Iff.rfl
  | .text s => exact Iff.rfl
  | .bool b => exact Iff.rfl
  | .error kind => exact Iff.rfl

end Regime

namespace Formula

/-- Whether the numbers in all cells have texts. -/
def Scope.Bounded (scope : Scope) : Prop := ∀ a v, scope.contents a = some v → v.Bounded

/-- Whether the rows of all references are short enough to write, and text can spell the constants and
names. So it is with every formula that was read. -/
abbrev Written (f : Formula) : Prop := f.Leaves fun r => r.Corners (·.isWritable)

theorem written_of_parse {s : String} {f : Formula} (h : parse s = .ok f) : f.Written :=
  (regular_of_parse h).1.mono fun r hr _ => isWritable_of_parse h r hr

/-- Whether no whole number among the constants and cells of a formula is too long to write, nor the row
of a cell out of bounds that is to be told of. -/
structure Legible (scope : Scope) (f : Formula) : Prop where
  constants : ∀ v ∈ f.constants, v.Legible
  contents : ∀ a, f.Names a → scope.bounds.contains a → ∀ v, scope.contents a = some v → v.Legible
  rows : ∀ a, f.Names a → ¬scope.bounds.contains a → a.isWritable

variable {scope : Scope} {f : Formula}

theorem Legible.covers (h : f.Legible scope) : (Regime.legible scope.precision).CoversFormula f where
  constant v hv := Regime.admitsContent_legible.mpr (h.constants v hv)
  content r hr a ha hin v hv := Regime.admitsContent_legible.mpr (h.contents a ⟨r, hr, ha⟩ hin v hv)
  unwritable r hr a ha hout hwritable := by
    rw [h.rows a ⟨r, hr, ha⟩ hout] at hwritable
    contradiction
  unknown _ _ _ := trivial

theorem Written.isWritable (h : f.Written) {a : Address} (ha : f.Names a) : a.isWritable := by
  obtain ⟨r, hr, hnames⟩ := ha
  exact (h.references r hr).isWritable_of_names hnames

theorem Written.covers (h : f.Written) (hscope : scope.Bounded) :
    (Regime.bounded scope.precision).CoversFormula f where
  constant v hv := Regime.admitsContent_bounded.mpr (h.constants v hv).bounded
  content r hr a ha hin v hv := Regime.admitsContent_bounded.mpr (hscope a v hv)
  unwritable r hr a ha hout hwritable := by
    rw [h.isWritable ⟨r, hr, ha⟩] at hwritable
    contradiction
  unknown _ _ _ := trivial

theorem Written.legible (h : f.Written) (hscope : scope.Bounded) : f.Legible scope :=
  ⟨fun v hv => (h.constants v hv).bounded.legible, fun a _ _ v hv => (hscope a v hv).legible,
    fun _ ha _ => h.isWritable ha⟩

/-- The number that a formula gives has a text. -/
theorem bounded_of_evaluate (hscope : scope.Bounded) (hf : f.Written) {v : Value}
    (h : f.evaluate scope = .ok v) : v.Bounded := by
  have heval := Regime.Yields.eval (hf.covers hscope)
  unfold evaluate at h
  split at h
  · cases h
    exact Number.carried_zero.bounded
  · rename_i s hs
    cases h
    rw [hs] at heval
    exact Regime.admitsContent_bounded.mp heval
  · obtain ⟨kind, -, rfl⟩ := map_eq_ok.mp h
    trivial

/-- Within the greatest precision a formula has a value. -/
theorem Legible.exists_evaluate (h : f.Legible scope) (hprecision : Number.Precise scope.precision) :
    ∃ v, f.evaluate scope = .ok v := by
  have heval := Regime.Yields.eval h.covers
  unfold evaluate
  split
  · exact ⟨_, rfl⟩
  · exact ⟨_, rfl⟩
  · rename_i failure hfailure
    rw [hfailure] at heval
    cases failure with
    | fault f => exact ⟨_, rfl⟩
    | overflow => exact ⟨_, rfl⟩
    | precision f => exact absurd hprecision heval

theorem exists_evaluate (hscope : scope.Bounded) (hf : f.Written)
    (hprecision : Number.Precise scope.precision) : ∃ v, f.evaluate scope = .ok v :=
  (hf.legible hscope).exists_evaluate hprecision

end Formula
end Spreadsheet
