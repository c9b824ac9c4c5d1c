import Spreadsheet.Proofs.Formula.Transport
import Spreadsheet.Proofs.Formula.Rewriting

/-! Formulas after lines were inserted and deleted again. All references come back, but a range that has
moved has its corners in order from then on. That changes neither the cells of the formula nor its
value. -/
namespace Spreadsheet

theorem LineEdit.moveSpan?_undo {e : LineEdit} (he : 0 < e.count) {low high low' high' : Int}
    (hle : low ≤ high) (h : e.moveSpan? low high = some (low', high')) :
    e.undo.moveSpan? low' high' = some (low, high) := by
  unfold moveSpan? at h ⊢
  unfold undo stop
  dsimp only
  grind

/-- To delete inserted lines takes every rectangle back. -/
theorem Rectangle.Ordered.shift?_undo {e : LineEdit} (he : 0 < e.count) {r moved : Rectangle}
    (hr : r.Ordered) (h : r.shift? e = some moved) : moved.shift? e.undo = some r := by
  rw [Rectangle.ordered_iff e.axis] at hr
  rw [Rectangle.shift?_eq_some] at h ⊢
  exact ⟨LineEdit.moveSpan?_undo he hr.1 h.1, h.2.1.symm, h.2.2.symm⟩

theorem Rectangle.exists_shift? {e : LineEdit} (he : 0 < e.count) (r : Rectangle) :
    ∃ moved, r.shift? e = some moved := by
  rw [← Option.isSome_iff_exists, Option.isSome_iff_ne_none, ne_eq, Rectangle.shift?,
    Option.map_eq_none_iff, LineEdit.moveSpan?_eq_none]
  omega

namespace Formula

variable {e : LineEdit}

/-- A range with its corners in order, if it moves. -/
def straightenRange (e : LineEdit) (first last : Address) : Formula :=
  let r := Rectangle.ofCorners first last
  if r.shift? e = some r then .range first last else .range r.topLeft r.bottomRight

mutual

/-- A formula in which the ranges that move have their corners in order. -/
def straighten (e : LineEdit) : Formula → Formula
  | .constant v => .constant v
  | .cell a => .cell a
  | .range first last => straightenRange e first last
  | .unary op x => .unary op (straighten e x)
  | .binary op x y => .binary op (straighten e x) (straighten e y)
  | .call name xs => .call name (straightenAll e xs)

def straightenAll (e : LineEdit) : List Formula → List Formula
  | [] => []
  | x :: xs => straighten e x :: straightenAll e xs

end

/-- A straightened range has the same cells. -/
theorem straightenRange_eq (e : LineEdit) (first last : Address) :
    ∃ first' last', straightenRange e first last = .range first' last' ∧
      Rectangle.ofCorners first' last' = Rectangle.ofCorners first last := by
  unfold straightenRange
  dsimp only
  split
  · exact ⟨first, last, rfl, rfl⟩
  · exact ⟨_, _, rfl, Rectangle.ofCorners_eq_self (Rectangle.ordered_ofCorners first last)⟩

/-! ## What comes back -/

theorem shiftRange_undo (he : 0 < e.count) (first last : Address) :
    (shiftRange e first last).shift e.undo = straightenRange e first last := by
  have hordered := Rectangle.ordered_ofCorners first last
  obtain ⟨moved, hmoved⟩ := Rectangle.exists_shift? he (Rectangle.ofCorners first last)
  have hback := hordered.shift?_undo he hmoved
  unfold shiftRange straightenRange
  dsimp only
  rw [hmoved]
  dsimp only
  by_cases hsame : moved = Rectangle.ofCorners first last
  · subst hsame
    rw [if_pos rfl, if_pos rfl, shift, shiftRange]
    simp only [hback, if_pos]
  · rw [if_neg hsame, if_neg (by simpa using hsame), shift, shiftRange]
    simp only [Rectangle.ofCorners_eq_self (hordered.shift? hmoved), hback, if_neg (Ne.symm hsame)]

mutual

/-- After the deletion of inserted lines a formula names what it named before. -/
theorem shift_undo (he : 0 < e.count) (f : Formula) : (f.shift e).shift e.undo = f.straighten e := by
  match f with
  | .constant v => rw [shift, shift, straighten]
  | .cell a =>
    obtain ⟨b, hab⟩ := Address.exists_shift?_eq_some (Int.le_of_lt he) a
    rw [straighten, shift, shiftCell, hab]
    dsimp only
    rw [shift, shiftCell, (Address.shift?_undo he).mpr hab]
  | .range first last => rw [straighten, shift, shiftRange_undo he]
  | .unary op x => rw [straighten, shift, shift, shift_undo he x]
  | .binary op x y => rw [straighten, shift, shift, shift_undo he x, shift_undo he y]
  | .call name xs => rw [straighten, shift, shift, shiftAll_undo he xs]

theorem shiftAll_undo (he : 0 < e.count) (fs : List Formula) :
    shiftAll e.undo (shiftAll e fs) = straightenAll e fs := by
  match fs with
  | [] => rw [shiftAll, shiftAll, straightenAll]
  | x :: xs => rw [straightenAll, shiftAll, shiftAll, shift_undo he x, shiftAll_undo he xs]

end

theorem straightenRange_of_shift (he : 0 < e.count) {first last : Address}
    (h : shiftRange e first last = .range first last) :
    straightenRange e first last = .range first last := by
  have hordered := Rectangle.ordered_ofCorners first last
  obtain ⟨moved, hmoved⟩ := Rectangle.exists_shift? he (Rectangle.ofCorners first last)
  unfold shiftRange at h
  unfold straightenRange
  dsimp only at h ⊢
  rw [hmoved] at h ⊢
  dsimp only at h
  by_cases hsame : moved = Rectangle.ofCorners first last
  · rw [if_pos (by rw [hsame])]
  · rw [if_neg hsame, range.injEq] at h
    have hback := Rectangle.ofCorners_eq_self (hordered.shift? hmoved)
    rw [h.1, h.2] at hback
    exact absurd hback.symm hsame

mutual

/-- Nothing is straightened where nothing moves. -/
theorem straighten_eq_self (he : 0 < e.count) {f : Formula} (h : f.shift e = f) :
    f.straighten e = f := by
  match f with
  | .constant v => rw [straighten]
  | .cell a => rw [straighten]
  | .range first last =>
    rw [shift] at h
    rw [straighten, straightenRange_of_shift he h]
  | .unary op x =>
    rw [shift, unary.injEq] at h
    rw [straighten, straighten_eq_self he h.2]
  | .binary op x y =>
    rw [shift, binary.injEq] at h
    rw [straighten, straighten_eq_self he h.2.1, straighten_eq_self he h.2.2]
  | .call name xs =>
    rw [shift, call.injEq] at h
    rw [straighten, straightenAll_eq_self he h.2]

theorem straightenAll_eq_self (he : 0 < e.count) {fs : List Formula} (h : shiftAll e fs = fs) :
    straightenAll e fs = fs := by
  match fs with
  | [] => rw [straightenAll]
  | x :: xs =>
    rw [shiftAll, List.cons.injEq] at h
    rw [straightenAll, straighten_eq_self he h.1, straightenAll_eq_self he h.2]

end

/-! ## References -/

/-- Whether two references have the same cells, in one order of the corners or another. -/
def Reference.SameCells : Reference → Reference → Prop
  | .cell a, .cell b => a = b
  | .range first last, .range first' last' =>
    Rectangle.ofCorners first last = Rectangle.ofCorners first' last'
  | _, _ => False

theorem Reference.SameCells.names_iff {r r' : Reference} (h : r.SameCells r') {a : Address} :
    r.Names a ↔ r'.Names a := by
  unfold SameCells at h
  unfold Names
  split at h
  · rw [h]
  · dsimp only
    rw [h]
  · exact h.elim

mutual

theorem references_straighten (f : Formula) :
    List.Forall₂ Reference.SameCells f.references (f.straighten e).references := by
  match f with
  | .constant v =>
    rw [straighten, references]
    exact .nil
  | .cell a =>
    rw [straighten, references]
    exact .cons rfl .nil
  | .range first last =>
    obtain ⟨first', last', heq, hcells⟩ := straightenRange_eq e first last
    rw [straighten, heq, references, references]
    exact .cons hcells.symm .nil
  | .unary op x =>
    rw [straighten, references, references]
    exact references_straighten x
  | .binary op x y =>
    rw [straighten, references, references]
    exact List.rel_append (references_straighten x) (references_straighten y)
  | .call name xs =>
    rw [straighten, references, references]
    exact referencesAll_straightenAll xs

theorem referencesAll_straightenAll (fs : List Formula) :
    List.Forall₂ Reference.SameCells (referencesAll fs) (referencesAll (straightenAll e fs)) := by
  match fs with
  | [] =>
    rw [straightenAll, referencesAll]
    exact .nil
  | x :: xs =>
    rw [straightenAll, referencesAll, referencesAll]
    exact List.rel_append (references_straighten x) (referencesAll_straightenAll xs)

end

theorem names_straighten_iff {f : Formula} {a : Address} : (f.straighten e).Names a ↔ f.Names a := by
  unfold Names
  have hsame := references_straighten (e := e) f
  generalize f.references = refs at hsame ⊢
  generalize (f.straighten e).references = refs' at hsame ⊢
  induction hsame with
  | nil => simp
  | cons h _ ih => simp only [List.exists_mem_cons_iff, h.names_iff, ih]

theorem oversized?_straighten {limit : Int} {f : Formula} :
    (f.straighten e).oversized? limit = none ↔ f.oversized? limit = none := by
  rw [oversized?_eq_none, oversized?_eq_none]
  have hsame := references_straighten (e := e) f
  generalize f.references = refs at hsame ⊢
  generalize (f.straighten e).references = refs' at hsame ⊢
  induction hsame with
  | nil => simp
  | @cons r r' _ _ h _ ih =>
    simp only [List.mem_cons, or_imp, forall_and, ih]
    refine and_congr_left fun _ => ?_
    unfold Reference.SameCells at h
    split at h
    · simp
    · rename_i first last first' last'
      constructor
      · rintro hle a b heq
        cases heq
        rw [h]
        exact hle _ _ rfl
      · rintro hle a b heq
        cases heq
        rw [← h]
        exact hle _ _ rfl
    · exact h.elim

/-! ## Values -/

theorem rangeCells_straighten (scope : Scope) (f : Formula) :
    rangeCells scope (f.straighten e) = rangeCells scope f := by
  cases f with
  | range first last =>
    obtain ⟨first', last', heq, hcells⟩ := straightenRange_eq e first last
    rw [straighten, heq, rangeCells, rangeCells]
    unfold Scope.readCells
    rw [hcells]
  | _ => rw [straighten] <;> rfl

mutual

theorem eval_straighten (scope : Scope) (f : Formula) :
    eval scope (f.straighten e) = eval scope f := by
  match f with
  | .constant v => rw [straighten]
  | .cell a => rw [straighten]
  | .range first last =>
    obtain ⟨first', last', heq, -⟩ := straightenRange_eq e first last
    rw [straighten, heq, eval, eval]
  | .unary op x => rw [straighten, eval, eval, eval_straighten scope x]
  | .binary op x y => rw [straighten, eval, eval, eval_straighten scope x, eval_straighten scope y]
  | .call name xs =>
    obtain ⟨harguments, hlength⟩ := arguments_straighten scope xs
    rw [straighten, eval, eval, harguments, hlength]

theorem arguments_straighten (scope : Scope) (fs : List Formula) :
    arguments scope (straightenAll e fs) = arguments scope fs ∧
      (straightenAll e fs).length = fs.length := by
  match fs with
  | [] => rw [straightenAll]; exact ⟨rfl, rfl⟩
  | x :: xs =>
    obtain ⟨harguments, hlength⟩ := arguments_straighten scope xs
    rw [straightenAll, arguments, arguments, harguments, eval_straighten scope x,
      rangeCells_straighten scope x, List.length_cons, List.length_cons, hlength]
    exact ⟨rfl, rfl⟩

end

theorem evaluate_straighten (scope : Scope) (f : Formula) :
    (f.straighten e).evaluate scope = f.evaluate scope := by
  unfold evaluate
  rw [eval_straighten]

/-! ## Texts -/

/-- The text of a formula after lines were inserted and deleted again. -/
def respell (e : LineEdit) (s : String) : String :=
  match parse s with
  | .ok f => if f.shift e = f then s else (f.straighten e).text
  | .error _ => s

theorem respell_cases {s : String} : respell e s = s ∨
    ∃ f, parse s = .ok f ∧ f.shift e ≠ f ∧ respell e s = (f.straighten e).text := by
  unfold respell
  split
  · rename_i f hf
    split
    · exact .inl rfl
    · rename_i hmoves
      exact .inr ⟨f, hf, hmoves, rfl⟩
  · exact .inl rfl

end Formula
end Spreadsheet
