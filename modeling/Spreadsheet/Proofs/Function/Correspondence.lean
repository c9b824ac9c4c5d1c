import Mathlib.Data.List.Forall2
import Spreadsheet.Function.Apply

/-! Calculations that come out alike. They may differ in the wording of a fault, and ranges may differ in
their empty cells, since no function that takes ranges sees these. -/
namespace Spreadsheet

/-- Calculations with related results, or that fail with the same kind of error. -/
inductive Corresponds {α β : Type} (r : α → β → Prop) :
    Except Failure α → Except Failure β → Prop where
  | ok {a : α} {b : β} : r a b → Corresponds r (.ok a) (.ok b)
  | fault {f g : Fault} : f.kind = g.kind → Corresponds r (.error (.fault f)) (.error (.fault g))
  | overflow : Corresponds r (.error .overflow) (.error .overflow)
  | precision (f : Number.PrecisionFault) : Corresponds r (.error (.precision f)) (.error (.precision f))

namespace Corresponds

variable {α β γ δ : Type} {r : α → β → Prop} {q : γ → δ → Prop}

theorem error (failure : Failure) : Corresponds r (.error failure) (.error failure) := by
  cases failure with
  | fault f => exact .fault rfl
  | overflow => exact .overflow
  | precision f => exact .precision f

theorem refl (x : Except Failure α) : Corresponds Eq x x := by
  cases x with
  | ok a => exact .ok rfl
  | error failure => exact .error failure

theorem trans {x y : Except Failure α} {z : Except Failure β} (h : Corresponds Eq x y)
    (h' : Corresponds r y z) : Corresponds r x z := by
  cases h with
  | ok hab => exact hab ▸ h'
  | fault hkind =>
    cases h' with
    | fault hkind' => exact .fault (hkind.trans hkind')
  | overflow => exact h'
  | precision f => exact h'

theorem bind {x : Except Failure α} {y : Except Failure β} {f : α → Except Failure γ}
    {g : β → Except Failure δ} (h : Corresponds r x y)
    (hnext : ∀ a b, r a b → Corresponds q (f a) (g b)) : Corresponds q (x >>= f) (y >>= g) := by
  cases h with
  | ok hab => exact hnext _ _ hab
  | fault hkind => exact .fault hkind
  | overflow => exact .overflow
  | precision f => exact .precision f

/-- The same calculation goes on from results that are equal. -/
theorem bind_same {x y : Except Failure α} (h : Corresponds Eq x y) (f : α → Except Failure β) :
    Corresponds Eq (x >>= f) (y >>= f) :=
  h.bind fun a _ hab => hab ▸ refl (f a)

theorem map {x : Except Failure α} {y : Except Failure β} {f : α → γ} {g : β → δ}
    (h : Corresponds r x y) (hnext : ∀ a b, r a b → q (f a) (g b)) :
    Corresponds q (x.map f) (y.map g) := by
  cases h with
  | ok hab => exact .ok (hnext _ _ hab)
  | fault hkind => exact .fault hkind
  | overflow => exact .overflow
  | precision f => exact .precision f

theorem mapM {f : α → Except Failure γ} {g : β → Except Failure δ} {as : List α} {bs : List β}
    (h : List.Forall₂ (fun a b => Corresponds q (f a) (g b)) as bs) :
    Corresponds (List.Forall₂ q) (as.mapM f) (bs.mapM g) := by
  induction h with
  | nil => exact .ok .nil
  | cons hab _ ih =>
    rw [List.mapM_cons, List.mapM_cons]
    exact hab.bind fun _ _ hcd => ih.bind fun _ _ hrest => .ok (.cons hcd hrest)

end Corresponds

/-! ## Ranges without their empty cells -/

namespace Operand

/-- An operand without the empty cells of a range. -/
def compact : Operand → Operand
  | .single v => .single v
  | .cells vs => .cells (vs.filter Option.isSome)

section Fold

variable {σ : Type} {step : σ → Number → Except Failure σ}

theorem foldNumbers_compact (s : σ) (o : Operand) :
    foldNumbers step s o.compact = foldNumbers step s o := by
  cases o with
  | single v => rfl
  | cells vs =>
    unfold compact foldNumbers
    dsimp only
    induction vs generalizing s with
    | nil => rfl
    | cons v vs ih =>
      cases v with
      | none =>
        rw [List.filter_cons_of_neg (by simp), List.foldlM_cons, ih]
        rfl
      | some x =>
        rw [List.filter_cons_of_pos rfl, List.foldlM_cons, List.foldlM_cons]
        simp only [ih]

theorem foldAll_compact (s : σ) (os : List Operand) :
    foldAll step s (os.map compact) = foldAll step s os := by
  unfold foldAll
  rw [List.foldlM_map]
  simp only [foldNumbers_compact]

end Fold

theorem truths_compact (o : Operand) : o.compact.truths = o.truths := by
  cases o with
  | single v => rfl
  | cells vs =>
    unfold compact truths
    dsimp only
    rw [List.filterMap_filter]
    congr 2
    funext v
    cases v <;> rfl

theorem allTruths_compact (os : List Operand) : allTruths (os.map compact) = allTruths os := by
  unfold allTruths
  rw [List.mapM_map]
  congr 2
  funext o
  exact truths_compact o

theorem filter_values_compact (os : List Operand) :
    ((os.map compact).flatMap values).filter Option.isSome =
      (os.flatMap values).filter Option.isSome := by
  induction os with
  | nil => rfl
  | cons o os ih =>
    rw [List.map_cons, List.flatMap_cons, List.flatMap_cons, List.filter_append, List.filter_append, ih]
    cases o with
    | single v => rfl
    | cells vs => simp only [compact, values, List.filter_filter, Bool.and_self]

theorem countWhere_compact {p : Option Scalar → Bool} (hp : p none = false) (os : List Operand) :
    countWhere p (os.map compact) = countWhere p os := by
  have hcount : ∀ vs : List (Option Scalar), vs.countP p = (vs.filter Option.isSome).countP p := by
    intro vs
    rw [List.countP_filter]
    congr 1
    funext v
    cases v <;> simp [hp]
  unfold countWhere
  rw [hcount, filter_values_compact, ← hcount]

/-- The texts of some values, joined. -/
private theorem join_written_cons (precision : Int) (v : Option Scalar) (vs : List (Option Scalar)) :
    ((v :: vs).mapM (Scalar.written precision)).map String.join =
      Scalar.written precision v >>= fun s =>
        ((vs.mapM (Scalar.written precision)).map String.join).map (s ++ ·) := by
  rw [List.mapM_cons]
  cases Scalar.written precision v with
  | error failure => rfl
  | ok s =>
    cases vs.mapM (Scalar.written precision) with
    | error failure => rfl
    | ok ss => exact congrArg Except.ok String.join_cons

/-- An empty cell adds nothing to a text. -/
theorem join_written_filter (precision : Int) (vs : List (Option Scalar)) :
    ((vs.filter Option.isSome).mapM (Scalar.written precision)).map String.join =
      (vs.mapM (Scalar.written precision)).map String.join := by
  induction vs with
  | nil => rfl
  | cons v vs ih =>
    rw [join_written_cons, ← ih]
    cases v with
    | none =>
      rw [List.filter_cons_of_neg (by simp)]
      generalize ((vs.filter Option.isSome).mapM (Scalar.written precision)).map String.join = text
      cases text with
      | error failure => rfl
      | ok s => exact congrArg Except.ok (String.empty_append).symm
    | some x => rw [List.filter_cons_of_pos rfl, join_written_cons]

end Operand

namespace Function

variable {precision : Int}

/-- Functions that take ranges see no empty cells in them. -/
theorem applyRange_compact (f : Function) (os : List Operand) :
    f.applyRange precision (os.map Operand.compact) = f.applyRange precision os := by
  have hjoin : ((os.map Operand.compact).flatMap Operand.values).mapM (Scalar.written precision) >>=
        (fun texts => Outcome.text (String.join texts)) =
      (os.flatMap Operand.values).mapM (Scalar.written precision) >>=
        fun texts => Outcome.text (String.join texts) := by
    have hmap : ∀ x : Except Failure (List String),
        (x >>= fun texts => Outcome.text (String.join texts)) =
          x.map String.join >>= Outcome.text := by
      intro x
      cases x <;> rfl
    rw [hmap, hmap, ← Operand.join_written_filter, Operand.filter_values_compact,
      Operand.join_written_filter]
  have haverage : Operand.average (os.map Operand.compact) = Operand.average os := by
    unfold Operand.average Operand.sum
    rw [Operand.foldAll_compact, Operand.foldAll_compact]
  unfold applyRange
  split
  · rw [Operand.sum, Operand.foldAll_compact]
    rfl
  · rw [Operand.product, Operand.foldAll_compact]
    rfl
  · rw [Operand.extreme, Operand.foldAll_compact]
    rfl
  · rw [Operand.extreme, Operand.foldAll_compact]
    rfl
  · rw [haverage]
  · rw [Operand.countWhere_compact rfl]
  · rw [Operand.countWhere_compact rfl]
  · rw [Operand.allTruths_compact]
  · rw [Operand.allTruths_compact]
  · exact hjoin

end Function

/-! ## Functions -/

/-- Arguments that come out alike, alone and for functions that take ranges. -/
structure Argument.Matches (a b : Argument) : Prop where
  value : Corresponds Eq (a.value ()) (b.value ())
  operand : Corresponds (fun o p => o.compact = p.compact) (Function.operand a) (Function.operand b)

namespace Function

variable {precision : Int} {as bs : List Argument}

theorem ifThen_corresponds (h : List.Forall₂ Argument.Matches as bs) :
    Corresponds Eq (ifThen.applyLazy as) (ifThen.applyLazy bs) := by
  cases h with
  | nil => exact .fault rfl
  | cons hcondition h =>
    cases h with
    | nil => exact .fault rfl
    | cons hchosen hotherwise =>
      refine hcondition.value.bind fun v w hvw => ?_
      subst hvw
      refine (Corresponds.refl (Failure.lift (Scalar.toBool v))).bind fun b c hbc => ?_
      subst hbc
      split
      · exact hchosen.value
      · cases hotherwise with
        | nil => exact .refl _
        | cons hother _ => exact hother.value

theorem ifError_corresponds (h : List.Forall₂ Argument.Matches as bs) :
    Corresponds Eq (ifError.applyLazy as) (ifError.applyLazy bs) := by
  cases h with
  | nil => exact .fault rfl
  | @cons a b _ _ htried h =>
    cases h with
    | nil => exact .fault rfl
    | cons hfallback _ =>
      have houtcome := htried.value
      unfold applyLazy
      dsimp only
      generalize a.value () = x at houtcome ⊢
      generalize b.value () = y at houtcome ⊢
      cases houtcome with
      | ok hvw => exact .ok hvw
      | fault _ => exact hfallback.value
      | overflow => exact .overflow
      | precision f => exact .precision f

theorem isError_corresponds (h : List.Forall₂ Argument.Matches as bs) :
    Corresponds Eq (isError.applyLazy as) (isError.applyLazy bs) := by
  cases h with
  | nil => exact .fault rfl
  | @cons a b _ _ htried _ =>
    have houtcome := htried.value
    unfold applyLazy
    dsimp only
    generalize a.value () = x at houtcome ⊢
    generalize b.value () = y at houtcome ⊢
    cases houtcome with
    | ok _ => exact .ok rfl
    | fault _ => exact .ok rfl
    | overflow => exact .overflow
    | precision f => exact .precision f

theorem applyLazy_corresponds (f : Function) (h : List.Forall₂ Argument.Matches as bs) :
    Corresponds Eq (f.applyLazy as) (f.applyLazy bs) := by
  cases f with
  | ifThen => exact ifThen_corresponds h
  | ifError => exact ifError_corresponds h
  | isError => exact isError_corresponds h
  | _ => exact .fault rfl

theorem apply_corresponds (f : Function) (h : List.Forall₂ Argument.Matches as bs) :
    Corresponds Eq (f.apply precision as) (f.apply precision bs) := by
  unfold apply
  split
  · exact applyLazy_corresponds f h
  · have hoperands : Corresponds (List.Forall₂ fun o p => o.compact = p.compact)
        (as.mapM operand) (bs.mapM operand) := .mapM (h.imp fun _ _ hab => hab.operand)
    refine hoperands.bind fun os ps hops => ?_
    have hcompact : os.map Operand.compact = ps.map Operand.compact := by
      rw [← List.forall₂_eq_eq_eq, List.forall₂_map_left_iff, List.forall₂_map_right_iff]
      exact hops
    rw [← applyRange_compact f os, hcompact, applyRange_compact]
    exact .refl _
  · have hvalues : Corresponds (List.Forall₂ Eq) (as.mapM fun a => a.value ())
        (bs.mapM fun b => b.value ()) := .mapM (h.imp fun _ _ hab => hab.value)
    refine hvalues.bind fun vs ws hvw => ?_
    rw [List.forall₂_eq_eq_eq] at hvw
    rw [hvw]
    exact .refl _

end Function
end Spreadsheet
