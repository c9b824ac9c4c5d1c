import Spreadsheet.Proofs.Formula.Guarding
import Spreadsheet.Proofs.Formula.Precision

/-! Operators and functions that evaluate all their operands or arguments. Each part is evaluated before
any of them is looked at, from left to right, and the first one without a value decides. -/
namespace Spreadsheet

namespace Formula

variable {scope : Scope} {f x : Formula} {xs parts : List Formula}

/-! ## Parts -/

/-- A range as the cells that are read for it, anything else as it stands. -/
def spread : Formula → List Formula
  | .range first last => (Rectangle.ofCorners first last).cells.map .cell
  | x => [x]

/-- What an operator or a function is going to work on, from left to right; none where there is nothing,
or where not all of it may be evaluated. -/
def parts? : Formula → Option (List Formula)
  | .unary _ x => some [x]
  | .binary _ x y => some [x, y]
  | .call name xs => do
    let f ← Function.named? name
    if f.accepts xs.length then
      match f.convention with
      | .scalar => some xs
      | .range => some (xs.flatMap spread)
      | .lazy => none
    else none
  | _ => none

/-- The contents of an operand are what its parts evaluate to. -/
theorem values_operand (scope : Scope) (x : Formula) :
    (Function.operand (argument scope x)).map Operand.values = (spread x).mapM (eval scope) := by
  cases x with
  | range first last =>
    have hcells : (spread (.range first last)).mapM (eval scope) = scope.readCells first last := by
      rw [readCells_eq_mapM, spread, List.mapM_map]
      rfl
    rw [hcells]
    change ((scope.readCells first last).map Operand.cells).map Operand.values = _
    cases scope.readCells first last <;> rfl
  | _ =>
    change ((eval scope _).map Operand.single).map Operand.values = [_].mapM (eval scope)
    rw [List.mapM_cons]
    cases eval scope _ <;> rfl

theorem mapM_spread (scope : Scope) (xs : List Formula) :
    (xs.flatMap spread).mapM (eval scope) =
      (xs.mapM fun x => Function.operand (argument scope x)).map (List.flatMap Operand.values) := by
  rw [mapM_flatMap]
  simp only [← values_operand]
  rw [mapM_map_result]
  cases xs.mapM fun x => Function.operand (argument scope x) <;> rfl

theorem parts?_call_eq_some {name : String} : (call name xs).parts? = some parts ↔
    ∃ f, Calls name xs.length f ∧
      (f.convention = .scalar ∧ parts = xs ∨ f.convention = .range ∧ parts = xs.flatMap spread) := by
  unfold parts?
  rw [Option.bind_eq_bind, Option.bind_eq_some_iff]
  refine exists_congr fun f => ?_
  rw [Option.ite_none_right_eq_some]
  constructor
  · rintro ⟨hnamed, haccepts, h⟩
    refine ⟨⟨hnamed, haccepts⟩, ?_⟩
    cases hconvention : f.convention <;> rw [hconvention] at h <;> simp_all
  · rintro ⟨⟨hnamed, haccepts⟩, ⟨hconvention, rfl⟩ | ⟨hconvention, rfl⟩⟩ <;>
      exact ⟨hnamed, haccepts, by rw [hconvention]⟩

/-- A part that fails where those before it do not fails the whole formula. -/
theorem eval_eq_error_of_parts (hparts : f.parts? = some parts) {failure : Failure}
    (h : parts.mapM (eval scope) = .error failure) : eval scope f = .error failure := by
  cases f with
  | unary op x =>
    cases hparts
    rw [List.mapM_cons, bind_eq_error] at h
    obtain hx | ⟨v, -, hrest⟩ := h
    · rw [eval, hx]
      rfl
    · contradiction
  | binary op x y =>
    cases hparts
    rw [List.mapM_cons, bind_eq_error] at h
    obtain hx | ⟨v, hx, hrest⟩ := h
    · rw [eval, hx]
      rfl
    · rw [eval, hx]
      cases hy : eval scope y with
      | error failure' =>
        rw [List.mapM_cons, hy] at hrest
        cases hrest
        rfl
      | ok w =>
        rw [List.mapM_cons, hy] at hrest
        contradiction
  | call name xs =>
    obtain ⟨f, hf, ⟨hscalar, rfl⟩ | ⟨hrange, rfl⟩⟩ := parts?_call_eq_some.mp hparts
    · rw [hf.eval_scalar hscalar, h]
      rfl
    · rw [mapM_spread, map_eq_error] at h
      rw [hf.eval_range hrange, h]
      rfl
  | _ => contradiction

/-! ## Values of parts -/

/-- Whether a formula evaluated alone is neither in error nor without any value. -/
def HasValue (scope : Scope) (x : Formula) : Prop := ∃ s, evaluate scope x = .ok (.scalar s)

instance : DecidablePred (HasValue scope) := fun x =>
  match h : evaluate scope x with
  | .ok (.scalar s) => isTrue ⟨s, h⟩
  | .ok (.error _) => isFalse fun ⟨_, hs⟩ => nomatch h.symm.trans hs
  | .error _ => isFalse fun ⟨_, hs⟩ => nomatch h.symm.trans hs

theorem hasValue_iff : HasValue scope x ↔ ∃ v, eval scope x = .ok v := by
  unfold HasValue evaluate
  split
  · rename_i h
    exact iff_of_true ⟨_, rfl⟩ ⟨_, h⟩
  · rename_i s h
    exact iff_of_true ⟨_, rfl⟩ ⟨_, h⟩
  · rename_i failure h
    refine iff_of_false ?_ ?_
    · rintro ⟨s, hs⟩
      obtain ⟨kind, -, hkind⟩ := map_eq_ok.mp hs
      contradiction
    · rintro ⟨v, hv⟩
      rw [h] at hv
      contradiction

theorem exists_eval_eq_error (h : ¬HasValue scope x) : ∃ failure, eval scope x = .error failure := by
  rw [hasValue_iff] at h
  cases hx : eval scope x with
  | ok v => exact absurd ⟨v, hx⟩ h
  | error failure => exact ⟨failure, rfl⟩

/-- The first part without a value, whether it is in error or nothing comes of it at all. -/
def valueless? (scope : Scope) (parts : List Formula) : Option Formula :=
  parts.find? (¬HasValue scope ·)

theorem valueless?_eq_some : valueless? scope parts = some x ↔ ¬HasValue scope x ∧
    ∃ before after, parts = before ++ x :: after ∧ ∀ b ∈ before, HasValue scope b := by
  unfold valueless?
  rw [List.find?_eq_some_iff_append]
  simp

theorem evaluate_eq_of_valueless? (hparts : f.parts? = some parts)
    (hx : valueless? scope parts = some x) : evaluate scope f = evaluate scope x := by
  obtain ⟨hx, before, after, hsplit, hbefore⟩ := valueless?_eq_some.mp hx
  obtain ⟨failure, hfailure⟩ := exists_eval_eq_error hx
  have hf : eval scope f = .error failure := by
    refine eval_eq_error_of_parts hparts (mapM_eq_error.mpr ⟨before, x, after, hsplit, ?_, hfailure⟩)
    exact fun b hb => hasValue_iff.mp (hbefore b hb)
  unfold evaluate
  rw [hf, hfailure]

/-- The error of a formula evaluated alone, if that is what comes of it. -/
def errorKind? (scope : Scope) (x : Formula) : Option ErrorKind :=
  match evaluate scope x with
  | .ok (.error kind) => some kind
  | _ => none

theorem errorKind?_eq_some {kind : ErrorKind} :
    errorKind? scope x = some kind ↔ evaluate scope x = .ok (.error kind) := by
  unfold errorKind?
  split <;> simp_all

theorem errorKind?_of_hasValue (h : HasValue scope x) : errorKind? scope x = none := by
  obtain ⟨s, hs⟩ := h
  unfold errorKind?
  rw [hs]

/-- The first error among parts, each evaluated alone. -/
def firstError? (scope : Scope) (parts : List Formula) : Option ErrorKind :=
  parts.findSome? (errorKind? scope)

/-- Where anything comes of a formula that has a part in error, the first such error does. -/
theorem evaluate_eq_firstError (hparts : f.parts? = some parts) {kind : ErrorKind}
    (hkind : firstError? scope parts = some kind) {v : Value} (hv : evaluate scope f = .ok v) :
    v = .error kind := by
  obtain ⟨inError, hmem, hinError⟩ := List.exists_of_findSome?_eq_some hkind
  -- The first part without a value is that in error, or one before it from which nothing comes.
  have hsome : (valueless? scope parts).isSome := by
    unfold valueless?
    refine List.find?_isSome.mpr ⟨inError, hmem, decide_eq_true fun hvalue => ?_⟩
    rw [errorKind?_of_hasValue hvalue] at hinError
    contradiction
  obtain ⟨x, hx⟩ := Option.isSome_iff_exists.mp hsome
  rw [evaluate_eq_of_valueless? hparts hx] at hv
  obtain ⟨hvalueless, before, after, rfl, hbefore⟩ := valueless?_eq_some.mp hx
  match v with
  | .scalar s => exact absurd ⟨s, hv⟩ hvalueless
  | .error kind' =>
    have hnone : before.findSome? (errorKind? scope) = none :=
      List.findSome?_eq_none_iff.mpr fun b hb => errorKind?_of_hasValue (hbefore b hb)
    unfold firstError? at hkind
    rw [List.findSome?_append, hnone, Option.none_or, List.findSome?_cons,
      errorKind?_eq_some.mpr hv] at hkind
    rw [Option.some.inj hkind]

/-! ## Cells as parts -/

theorem evaluate_cell_of_contains {a : Address} (h : scope.bounds.contains a) :
    evaluate scope (.cell a) = .ok ((scope.contents a).getD (.number (.int 0))) := by
  unfold evaluate
  rw [eval, Scope.read, if_pos h]
  match scope.contents a with
  | none => rfl
  | some (.scalar s) => rfl
  | some (.error kind) => rfl

theorem evaluate_cell_of_not_contains {a : Address} (h : ¬scope.bounds.contains a)
    (ha : a.isWritable) : evaluate scope (.cell a) = .ok (.error .refMissing) := by
  unfold evaluate
  rw [eval, Scope.read, if_neg h, if_pos ha]
  rfl

/-! ## Formulas -/

/-- A call of no function, or with a count of arguments that its function does not accept, is in error
whatever its arguments are. Whatever else works on its parts takes the first of these without a value for
its own outcome: so if any of them is in error, the first such error is all that can come of it. That
something comes of it is sure within the greatest precision, if it meets no whole number and no row too
long to write. A cell of a range is as good as its content, and out of bounds it is missing. -/
theorem first_error_decides (scope : Scope) (f : Formula) :
    (∀ name xs, f = .call name xs →
      (Function.named? name = none → evaluate scope f = .ok (.error .unknownFunction)) ∧
      (∀ g, Function.named? name = some g → ¬g.accepts xs.length →
        evaluate scope f = .ok (.error .typeMismatch))) ∧
    (∀ parts, f.parts? = some parts →
      (∀ x, valueless? scope parts = some x → evaluate scope f = evaluate scope x) ∧
      (∀ kind, firstError? scope parts = some kind →
        ∀ v, evaluate scope f = .ok v → v = .error kind) ∧
      (f.Legible scope → Number.Precise scope.precision → ∃ v, evaluate scope f = .ok v)) ∧
    ∀ a, (scope.bounds.contains a →
        evaluate scope (.cell a) = .ok ((scope.contents a).getD (.number (.int 0)))) ∧
      (¬scope.bounds.contains a → a.isWritable →
        evaluate scope (.cell a) = .ok (.error .refMissing)) := by
  refine ⟨?_, fun parts hparts => ⟨?_, ?_, ?_⟩, fun a => ⟨?_, ?_⟩⟩
  · rintro name xs rfl
    constructor
    · intro hnamed
      rw [evaluate, eval, hnamed]
      rfl
    · intro g hnamed haccepts
      rw [evaluate, eval, hnamed]
      dsimp only
      rw [if_neg haccepts]
      rfl
  · exact fun x => evaluate_eq_of_valueless? hparts
  · exact fun kind hkind v => evaluate_eq_firstError hparts hkind
  · exact Legible.exists_evaluate
  · exact evaluate_cell_of_contains
  · exact evaluate_cell_of_not_contains

/-- Of two errors in a square of cells the one further up counts, and not that of the argument behind. -/
theorem first_error_decides_sum :
    let contents : Address → Option Value := fun a =>
      if a = ⟨0, 1⟩ then some (.error .divideByZero)
      else if a = ⟨1, 0⟩ then some (.error .typeMismatch) else none
    let scope : Scope := ⟨contents, ⟨some 3, none⟩, 9⟩
    let f := Formula.call "SUM" [.range ⟨0, 0⟩ ⟨1, 1⟩, .constant (.error .cycle)]
    let parts : List Formula :=
      [.cell ⟨0, 0⟩, .cell ⟨0, 1⟩, .cell ⟨1, 0⟩, .cell ⟨1, 1⟩, .constant (.error .cycle)]
    f.parts? = some parts ∧ firstError? scope parts = some .divideByZero ∧ f.Legible scope ∧
      evaluate scope f = .ok (.error .divideByZero) := by
  intro contents scope f parts
  have hparts : f.parts? = some parts := by decide
  have hfirst : firstError? scope parts = some .divideByZero := by decide
  have hlegible : f.Legible scope := by
    refine ⟨by simp [f, constants, constantsAll, Value.Legible], fun a _ _ v hv => ?_, ?_⟩
    · dsimp only [scope, contents] at hv
      split at hv
      · cases hv
        trivial
      · split at hv
        · cases hv
          trivial
        · contradiction
    · rintro a ⟨r, hr, hnames⟩ hout
      obtain rfl : r = .range ⟨0, 0⟩ ⟨1, 1⟩ := by simpa [f, references, referencesAll] using hr
      simp only [Reference.Names, Rectangle.Contains, Rectangle.ofCorners] at hnames
      simp [scope, Bounds.contains, Address.isBelow] at hout
      omega
  obtain ⟨-, hkind, hvalue⟩ := (first_error_decides scope f).2.1 parts hparts
  obtain ⟨v, hv⟩ := hvalue hlegible ⟨by decide, by decide⟩
  exact ⟨hparts, hfirst, hlegible, hkind _ hfirst v hv ▸ hv⟩

end Formula
end Spreadsheet
