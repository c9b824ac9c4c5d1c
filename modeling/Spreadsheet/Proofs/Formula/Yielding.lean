import Spreadsheet.Proofs.Formula.Scope
import Spreadsheet.Proofs.Formula.Spelling
import Spreadsheet.Proofs.Function.Yielding

/-! What formulas make of their constants and cells, and how they end without a value, for anything that is
asked of the numbers and the failures that are met. A failure of a formula is that of a constant, a cell or
the name of a function, or else one that may come of anything. -/
namespace Spreadsheet

/-- The kind of the results of an operator. -/
def BinaryOp.result : BinaryOp → ResultKind
  | .add | .subtract | .multiply | .divide | .power => .number
  | .join => .text
  | .equal | .notEqual | .less | .greater | .lessEqual | .greaterEqual => .bool

theorem Formula.length_arguments (scope : Scope) (xs : List Formula) :
    (arguments scope xs).length = xs.length := by
  induction xs with
  | nil => rfl
  | cons x xs ih => rw [arguments, List.length_cons, List.length_cons, ih]

namespace Regime

variable {precision : Int} {r : Regime precision}

/-! ## Leaves -/

/-- Whether what is in a cell may be met: its number may, or its error may be what is read. -/
def AdmitsContent (r : Regime precision) : Value → Prop
  | .scalar s => r.Admits (some s)
  | .error kind => r.failure (.fault (.read kind))

/-- Whether the constants and the cells of formulas may be met, and whether it may be told of cells whose
row is too long to tell of, and of names of no function. -/
structure Covers {scope : Formula.Scope} (r : Regime scope.precision) (constants : List Value)
    (refs : List Formula.Reference) (names : List String) : Prop where
  constant : ∀ v ∈ constants, r.AdmitsContent v
  content : ∀ ref ∈ refs, ∀ a, ref.Names a → scope.bounds.contains a →
    ∀ v, scope.contents a = some v → r.AdmitsContent v
  unwritable : ∀ ref ∈ refs, ∀ a, ref.Names a → ¬scope.bounds.contains a → a.isWritable = false →
    r.failure (.precision (.unwritable .writing))
  unknown : ∀ name ∈ names, Function.named? name = none → r.failure (.fault (.unknownFunction name))

theorem Covers.mono {scope : Formula.Scope} {r : Regime scope.precision}
    {constants constants' : List Value} {refs refs' : List Formula.Reference} {names names' : List String}
    (h : r.Covers constants refs names) (hconstants : constants' ⊆ constants) (hrefs : refs' ⊆ refs)
    (hnames : names' ⊆ names) : r.Covers constants' refs' names' :=
  ⟨fun v hv => h.constant v (hconstants hv), fun ref href => h.content ref (hrefs href),
    fun ref href => h.unwritable ref (hrefs href), fun name hname => h.unknown name (hnames hname)⟩

/-- Whether the leaves of a formula may be met. -/
abbrev CoversFormula {scope : Formula.Scope} (r : Regime scope.precision) (f : Formula) : Prop :=
  r.Covers f.constants f.references f.names

theorem operand?_of_admits {v : Option Value} (h : ∀ w, v = some w → r.AdmitsContent w) :
    r.Yields r.Admits (Failure.lift (Value.operand? v)) := by
  match v with
  | none => trivial
  | some (.scalar s) => exact h _ rfl
  | some (.error kind) => exact h _ rfl

namespace Yields

/-! ## Operators -/

section Operators

theorem numbers (left right : Option Scalar) :
    r.Yields (fun p => p.1.Carried ∧ p.2.Carried) (Formula.numbers left right) :=
  bind (toNumber left) fun _ ha => bind (toNumber right) fun _ hb => ⟨ha, hb⟩

theorem calculate (operation : Number → Number → Option Number) (left right : Option Scalar) :
    r.Yields ResultKind.number.Holds (Formula.calculate operation left right) :=
  bind (numbers left right) fun _ _ => bind (orOverflow _) fun n _ => bind (carryOn n) fun _ hm =>
    number hm

theorem compareWith (op : BinaryOp) (left right : Option Scalar) :
    r.Yields ResultKind.bool.Holds (Formula.compareWith op left right) := by
  unfold Formula.compareWith
  dsimp only
  split
  · exact ResultKind.Holds.bool _
  · exact ResultKind.Holds.bool _
  · refine ite (fun _ => fault rfl) fun _ => ?_
    split <;> exact ResultKind.Holds.bool _

theorem applyBinary (op : BinaryOp) {left right : Option Scalar} (hleft : r.Admits left)
    (hright : r.Admits right) : r.Yields op.result.Holds (Formula.applyBinary precision op left right) := by
  cases op
  case add => exact calculate _ left right
  case subtract => exact calculate _ left right
  case multiply => exact calculate _ left right
  case divide =>
    refine bind (numbers left right) fun _ _ => ite (fun _ => fault rfl) fun _ => ?_
    exact bind (orOverflow _) fun n _ => bind (carryOn n) fun m hm => number hm
  case power => exact bind (numbers left right) fun _ _ => bind (power _ _) fun n hn => number hn
  case join => exact bind (written hleft) fun s _ => bind (written hright) fun t _ => .text _
  all_goals
    unfold Formula.applyBinary
    exact compareWith _ left right

theorem applyUnary (op : UnaryOp) (operand : Option Scalar) :
    r.Yields ResultKind.number.Holds (Formula.applyUnary op operand) := by
  unfold Formula.applyUnary
  refine bind (toNumber operand) fun n hn => ?_
  cases op with
  | minus => exact number hn.neg
  | plus => exact number hn
  | percent => exact bind (orOverflow _) fun m hm => number (hn.percent hm)

end Operators

/-! ## Formulas -/

section Formulas

variable {scope : Formula.Scope} {r : Regime scope.precision} {constants : List Value}
  {refs : List Formula.Reference} {names : List String}

theorem read (h : r.Covers constants refs names) {ref : Formula.Reference} (href : ref ∈ refs)
    {a : Address} (ha : ref.Names a) : r.Yields r.Admits (scope.read a) := by
  unfold Formula.Scope.read
  refine ite (fun hin => operand?_of_admits (h.content ref href a ha hin)) fun hout => ?_
  cases hwritable : a.isWritable with
  | true => exact fault rfl
  | false => exact h.unwritable ref href a ha hout hwritable

theorem readCells (h : r.Covers constants refs names) {first last : Address}
    (href : .range first last ∈ refs) :
    r.Yields (fun vs => ∀ v ∈ vs, r.Admits v) (scope.readCells first last) := by
  rw [Formula.readCells_eq_mapM]
  exact (mapM fun a ha => read h href (Rectangle.mem_cells.mp ha)).mono fun _ hvs => hvs.2

mutual

theorem eval {f : Formula} (h : r.CoversFormula f) : r.Yields r.Admits (f.eval scope) := by
  match f with
  | .constant v =>
    rw [Formula.eval]
    exact operand?_of_admits fun w hw => by cases hw; exact h.constant _ List.mem_cons_self
  | .cell a =>
    rw [Formula.eval]
    exact read h List.mem_cons_self rfl
  | .range first last => exact fault rfl
  | .unary op x =>
    rw [Formula.eval]
    exact bind (eval (f := x) h) fun v _ => (applyUnary op v).mono fun _ => r.admits_of_holds
  | .binary op x y =>
    have hx : r.CoversFormula x := h.mono (List.subset_append_left _ _) (List.subset_append_left _ _)
      (List.subset_append_left _ _)
    have hy : r.CoversFormula y := h.mono (List.subset_append_right _ _) (List.subset_append_right _ _)
      (List.subset_append_right _ _)
    rw [Formula.eval]
    refine bind (eval hx) fun v hv => bind (eval hy) fun w hw => ?_
    exact (applyBinary op hv hw).mono fun _ => r.admits_of_holds
  | .call name xs =>
    rw [Formula.eval]
    split
    · exact h.unknown name List.mem_cons_self ‹_›
    · refine ite (fun haccepts => ?_) fun _ => fault rfl
      have hxs := h.mono (List.Subset.refl _) (List.Subset.refl _) (List.subset_cons_self _ _)
      exact apply _ (by rwa [Formula.length_arguments]) (arguments hxs)

theorem arguments {xs : List Formula}
    (h : r.Covers (Formula.constantsAll xs) (Formula.referencesAll xs) (Formula.namesAll xs)) :
    ∀ a ∈ Formula.arguments scope xs, r.AdmitsArgument a := by
  match xs with
  | [] => simp [Formula.arguments]
  | x :: xs =>
    have hx : r.CoversFormula x := h.mono (List.subset_append_left _ _) (List.subset_append_left _ _)
      (List.subset_append_left _ _)
    have hrest := h.mono (List.subset_append_right x.constants _)
      (List.subset_append_right x.references _) (List.subset_append_right x.names _)
    intro a ha
    rw [Formula.arguments, List.mem_cons] at ha
    rcases ha with rfl | ha
    · refine ⟨eval hx, fun cells hcells => ?_⟩
      cases x with
      | range first last =>
        cases hcells
        exact readCells hx List.mem_cons_self
      | _ => contradiction
    · exact arguments hrest a ha

end

end Formulas

end Yields

theorem admitsArgument_free (a : Argument) : (free precision).AdmitsArgument a :=
  ⟨(Yields.free _).mono fun _ _ => admits_free _,
    fun _ _ => (Yields.free _).mono fun _ _ _ _ => admits_free _⟩

end Regime

/-! ## Kinds of results -/

namespace Formula

/-- The kind of the results of a formula by its root, where that settles it. -/
def result? : Formula → Option ResultKind
  | .unary _ _ => some .number
  | .binary op _ _ => some op.result
  | .call name _ => (Function.named? name).bind Function.result?
  | _ => none

theorem holds_of_eval {scope : Scope} {f : Formula} {kind : ResultKind} (hkind : f.result? = some kind)
    {x : Option Scalar} (h : eval scope f = .ok x) : kind.Holds x := by
  suffices hyields : (Regime.free scope.precision).Yields kind.Holds (eval scope f) by rwa [h] at hyields
  match f with
  | .unary op y =>
    cases hkind
    rw [eval]
    exact .bind (.free _) fun v _ => .applyUnary op v
  | .binary op y z =>
    cases hkind
    rw [eval]
    refine .bind (.free _) fun v _ => .bind (.free _) fun w _ => ?_
    exact .applyBinary op (Regime.admits_free v) (Regime.admits_free w)
  | .call name xs =>
    obtain ⟨g, hnamed, hresult⟩ := Option.bind_eq_some_iff.mp hkind
    rw [eval, hnamed]
    refine .ite (fun haccepts => ?_) fun _ => .fault rfl
    refine .apply_of_result hresult ?_ fun a _ => Regime.admitsArgument_free a
    rwa [length_arguments]

end Formula
end Spreadsheet
