import Spreadsheet.Formula.Evaluation
import Spreadsheet.Proofs.Formula.Names

/-! The value of a formula depends on nothing but the bounds, the precision and the cells that it reads
within the bounds. -/
namespace Spreadsheet

namespace Formula

variable {scope scope' : Scope}

theorem readCells_eq_mapM (scope : Scope) (first last : Address) :
    scope.readCells first last = (Rectangle.ofCorners first last).cells.mapM scope.read := by
  unfold Scope.readCells
  rw [Rectangle.foldCells_eq_foldlM, List.mapM_eq_reverse_foldlM_cons]
  rfl

/-- Two scopes that differ in no cell that some references name within the bounds. -/
structure Scope.Agree (refs : List Reference) (scope scope' : Scope) : Prop where
  bounds : scope.bounds = scope'.bounds
  precision : scope.precision = scope'.precision
  contents : ∀ r ∈ refs, ∀ b, scope.bounds.contains b → r.Names b →
    scope.contents b = scope'.contents b

theorem Scope.Agree.mono {refs refs' : List Reference} (h : Scope.Agree refs scope scope')
    (hsub : refs' ⊆ refs) : Scope.Agree refs' scope scope' :=
  ⟨h.bounds, h.precision, fun r hr => h.contents r (hsub hr)⟩

theorem Scope.Agree.read {refs : List Reference} (h : Scope.Agree refs scope scope') {r : Reference}
    (hr : r ∈ refs) {b : Address} (hb : r.Names b) : scope.read b = scope'.read b := by
  unfold Scope.read
  rw [← h.bounds]
  split
  · rename_i hin
    rw [h.contents r hr b hin hb]
  · rfl

theorem Scope.Agree.readCells {refs : List Reference} (h : Scope.Agree refs scope scope')
    {first last : Address} (hr : .range first last ∈ refs) :
    scope.readCells first last = scope'.readCells first last := by
  rw [readCells_eq_mapM, readCells_eq_mapM]
  exact mapM_congr fun b hb => h.read hr (Rectangle.mem_cells.mp hb)

theorem rangeCells_congr {x : Formula} (h : Scope.Agree x.references scope scope') :
    rangeCells scope x = rangeCells scope' x := by
  cases x with
  | range first last =>
    have hcells : scope.readCells first last = scope'.readCells first last :=
      h.readCells (by simp [references])
    rw [rangeCells, rangeCells, hcells]
  | _ => rfl

/-- Where a formula gives an error, its computation failed with one of that kind. -/
theorem exists_failure_of_evaluate {f : Formula} {kind : ErrorKind}
    (h : evaluate scope f = .ok (.error kind)) :
    ∃ failure, eval scope f = .error failure ∧ failure.kind = .ok kind := by
  unfold evaluate at h
  split at h
  · cases h
  · cases h
  · rename_i failure hfailure
    obtain ⟨found, hfound, heq⟩ := map_eq_ok.mp h
    cases heq
    exact ⟨failure, hfailure, hfound⟩

mutual

theorem eval_congr {f : Formula} (h : Scope.Agree f.references scope scope') :
    eval scope f = eval scope' f := by
  match f with
  | .constant v => rfl
  | .cell a => exact h.read (r := .cell a) (by simp [references]) rfl
  | .range first last => rfl
  | .unary op x =>
    rw [references] at h
    rw [eval, eval, eval_congr h]
  | .binary op x y =>
    rw [references] at h
    rw [eval, eval, eval_congr (h.mono (List.subset_append_left _ _)),
      eval_congr (h.mono (List.subset_append_right _ _)), h.precision]
  | .call name xs =>
    rw [references] at h
    rw [eval, eval, arguments_congr h, h.precision]

theorem arguments_congr {xs : List Formula} (h : Scope.Agree (referencesAll xs) scope scope') :
    arguments scope xs = arguments scope' xs := by
  match xs with
  | [] => rfl
  | x :: xs =>
    rw [referencesAll] at h
    have hx := h.mono (List.subset_append_left x.references (referencesAll xs))
    rw [arguments, arguments, eval_congr hx, rangeCells_congr hx,
      arguments_congr (h.mono (List.subset_append_right x.references (referencesAll xs)))]

end

/-- Scopes of the same bounds that do not differ in the addresses of a formula agree on its references. -/
theorem Scope.agree_of_addresses {f : Formula} (hbounds : scope.bounds = scope'.bounds)
    (hprecision : scope.precision = scope'.precision)
    (h : ∀ b ∈ f.addresses scope.bounds, scope.contents b = scope'.contents b) :
    Scope.Agree f.references scope scope' :=
  ⟨hbounds, hprecision, fun r hr b hin hb => h b (mem_addresses.mpr ⟨hin, r, hr, hb⟩)⟩

/-- Scopes with the same contents in the cells that a formula reads give it the same value. -/
theorem evaluate_congr {f : Formula} (hbounds : scope.bounds = scope'.bounds)
    (hprecision : scope.precision = scope'.precision)
    (h : ∀ b ∈ f.addresses scope.bounds, scope.contents b = scope'.contents b) :
    evaluate scope f = evaluate scope' f := by
  unfold evaluate
  rw [eval_congr (Scope.agree_of_addresses hbounds hprecision h)]

/-- What is in cells that the graph does not record for a formula neither shows in its value, nor in
what is said of a fault or in how the computation ends. -/
theorem evaluate_noninterference (f : Formula) (bounds : Bounds) (precision : Int)
    {contents contents' : Address → Option Value}
    (h : ∀ b ∈ f.addresses bounds, contents b = contents' b) :
    eval ⟨contents, bounds, precision⟩ f = eval ⟨contents', bounds, precision⟩ f ∧
      evaluate ⟨contents, bounds, precision⟩ f = evaluate ⟨contents', bounds, precision⟩ f :=
  ⟨eval_congr (Scope.agree_of_addresses rfl rfl h), evaluate_congr rfl rfl h⟩

/-- The sum of a square of cells does not see the cell below its right corner. -/
theorem evaluate_noninterference_sum :
    let f := Formula.call "SUM" [.range ⟨0, 0⟩ ⟨1, 1⟩]
    let contents : Address → Option Value := fun a => if a = ⟨2, 1⟩ then some (.error .cycle) else none
    (∀ b ∈ f.addresses ⟨some 3, none⟩, contents b = none) ∧
      evaluate ⟨contents, ⟨some 3, none⟩, 9⟩ f = evaluate ⟨fun _ => none, ⟨some 3, none⟩, 9⟩ f := by
  intro f contents
  have h : ∀ b ∈ f.addresses ⟨some 3, none⟩, contents b = none := by
    intro b hb
    obtain ⟨-, r, hr, hnames⟩ := mem_addresses.mp hb
    obtain rfl : r = .range ⟨0, 0⟩ ⟨1, 1⟩ := by simpa [f, references, referencesAll] using hr
    have hne : b ≠ ⟨2, 1⟩ := by
      rintro rfl
      simp only [Reference.Names, Rectangle.Contains, Rectangle.ofCorners] at hnames
      omega
    exact if_neg hne
  exact ⟨h, (evaluate_noninterference f _ 9 h).2⟩

end Formula
end Spreadsheet
