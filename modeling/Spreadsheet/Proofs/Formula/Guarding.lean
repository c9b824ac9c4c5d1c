import Spreadsheet.Proofs.Formula.Scope
import Spreadsheet.Proofs.Function.Overflow

/-! Guards against errors. A guard catches every fault of the formula that it guards, but not an overflow:
that one passes through all guards around it, and becomes an error once the whole formula has ended. -/
namespace Spreadsheet
namespace Formula

/-! ## Operators

They work on numbers that floating point can take. -/

theorem numbers_bind_ne_overflow {next : Number × Number → Outcome}
    (h : ∀ a b : Number, a.Carried → b.Carried → next (a, b) ≠ .error .overflow)
    (left right : Option Scalar) : (numbers left right >>= next) ≠ .error .overflow := by
  refine Failure.bind_ne_overflow ?_ fun p hp => ?_
  · exact Failure.bind_ne_overflow (Failure.lift_ne_overflow _) fun _ _ =>
      Failure.bind_ne_overflow (Failure.lift_ne_overflow _) (by nofun)
  · obtain ⟨a, ha, hp⟩ := bind_eq_ok.mp hp
    obtain ⟨b, hb, hp⟩ := bind_eq_ok.mp hp
    cases hp
    exact h a b (Number.carried_of_toNumber (Failure.lift_eq_ok.mp ha))
      (Number.carried_of_toNumber (Failure.lift_eq_ok.mp hb))

theorem carryOn_bind_ne_overflow {n : Option Number} (h : ∃ m, n = some m) :
    (do Outcome.number (← (← Number.orOverflow n).carryOn)) ≠ .error .overflow := by
  obtain ⟨m, rfl⟩ := h
  exact Function.number_bind_eq_overflow.not.mpr (Number.carryOn_ne_overflow m)

theorem calculate_ne_overflow {operation : Number → Number → Option Number}
    (h : ∀ a b : Number, a.Carried → b.Carried → ∃ c, operation a b = some c)
    (left right : Option Scalar) : calculate operation left right ≠ .error .overflow :=
  numbers_bind_ne_overflow (fun _ _ ha hb => carryOn_bind_ne_overflow (h _ _ ha hb)) left right

theorem compareWith_ne_overflow (op : BinaryOp) (left right : Option Scalar) :
    compareWith op left right ≠ .error .overflow := by
  unfold compareWith
  dsimp only
  repeat' split
  all_goals nofun

theorem applyBinary_ne_overflow (precision : Int) (op : BinaryOp) (left right : Option Scalar) :
    applyBinary precision op left right ≠ .error .overflow := by
  unfold applyBinary
  split
  · exact calculate_ne_overflow (fun _ _ ha hb => ha.exists_combine? hb _ _) left right
  · exact calculate_ne_overflow (fun _ _ ha hb => ha.exists_combine? hb _ _) left right
  · exact calculate_ne_overflow (fun _ _ ha hb => ha.exists_combine? hb _ _) left right
  · refine numbers_bind_ne_overflow (fun a b ha hb => ?_) left right
    dsimp only
    split
    · nofun
    · exact carryOn_bind_ne_overflow (ha.exists_div? hb)
  · refine numbers_bind_ne_overflow (fun a b ha hb => ?_) left right
    exact Function.number_bind_eq_overflow.not.mpr (ha.power_ne_overflow hb)
  · exact Failure.bind_ne_overflow (Scalar.written_ne_overflow precision left) fun _ _ =>
      Failure.bind_ne_overflow (Scalar.written_ne_overflow precision right) (by nofun)
  · exact compareWith_ne_overflow _ left right

theorem applyUnary_ne_overflow (op : UnaryOp) (operand : Option Scalar) :
    applyUnary op operand ≠ .error .overflow := by
  refine Failure.bind_ne_overflow (Failure.lift_ne_overflow _) fun n hn => ?_
  have hn := Number.carried_of_toNumber (Failure.lift_eq_ok.mp hn)
  cases op with
  | minus => nofun
  | plus => nofun
  | percent =>
    obtain ⟨c, hc⟩ := hn.exists_div? Number.carried_hundred
    rw [hc]
    nofun

variable {scope : Scope}

theorem read_ne_overflow (scope : Scope) (a : Address) : scope.read a ≠ .error .overflow := by
  unfold Scope.read
  split
  · exact Failure.lift_ne_overflow _
  · split <;> nofun

theorem readCells_ne_overflow (scope : Scope) (first last : Address) :
    scope.readCells first last ≠ .error .overflow := by
  rw [readCells_eq_mapM, Ne, mapM_eq_error]
  rintro ⟨before, a, after, -, -, h⟩
  exact read_ne_overflow scope a h

/-! ## Calls -/

/-- Whether a name calls a function that accepts so many arguments. -/
structure Calls (name : String) (count : Nat) (f : Function) : Prop where
  named : Function.named? name = some f
  accepts : f.accepts count

def argument (scope : Scope) (x : Formula) : Argument := ⟨fun _ => eval scope x, rangeCells scope x⟩

theorem arguments_eq_map (xs : List Formula) : arguments scope xs = xs.map (argument scope) := by
  induction xs with
  | nil => rfl
  | cons x xs ih =>
    rw [arguments, ih]
    rfl

namespace Calls

variable {name : String} {xs : List Formula} {x y : Formula} {f : Function}

theorem eval (h : Calls name xs.length f) :
    Formula.eval scope (.call name xs) = f.apply scope.precision (xs.map (argument scope)) := by
  rw [Formula.eval, h.named, arguments_eq_map]
  exact if_pos h.accepts

theorem eval_scalar (h : Calls name xs.length f) (hf : f.convention = .scalar) :
    Formula.eval scope (.call name xs) =
      xs.mapM (Formula.eval scope) >>= f.applyScalar scope.precision := by
  rw [h.eval, Function.apply, hf]
  dsimp only
  rw [List.mapM_map]
  rfl

theorem eval_range (h : Calls name xs.length f) (hf : f.convention = .range) :
    Formula.eval scope (.call name xs) =
      (xs.mapM fun x => Function.operand (argument scope x)) >>= f.applyRange scope.precision := by
  rw [h.eval, Function.apply, hf]
  dsimp only
  rw [List.mapM_map]
  rfl

theorem eval_ifThen (h : Calls name (x :: y :: xs).length .ifThen) :
    Formula.eval scope (.call name (x :: y :: xs)) = (do
      let condition ← Failure.lift (Scalar.toBool (← Formula.eval scope x))
      if condition then Formula.eval scope y
      else (xs.head?.map (Formula.eval scope)).getD (.bool false)) := by
  rw [h.eval]
  cases xs <;> rfl

theorem eval_ifError (h : Calls name [x, y].length .ifError) :
    Formula.eval scope (.call name [x, y]) =
      match Formula.eval scope x with
      | .error (.fault _) => Formula.eval scope y
      | outcome => outcome :=
  h.eval

theorem eval_isError (h : Calls name [x].length .isError) :
    Formula.eval scope (.call name [x]) =
      match Formula.eval scope x with
      | .error (.fault _) => .bool true
      | .error failure => .error failure
      | .ok _ => .bool false :=
  h.eval

theorem length_ge (h : Calls name xs.length f) : f.minArguments ≤ xs.length := by
  have haccepts := h.accepts
  simp only [Function.accepts, Bool.and_eq_true, decide_eq_true_eq] at haccepts
  exact haccepts.1

theorem length_le (h : Calls name xs.length f) {most : Nat} (hmost : f.maxArguments = some most) :
    xs.length ≤ most := by
  have haccepts := h.accepts
  simp only [Function.accepts, hmost, Bool.and_eq_true, Option.all_some, decide_eq_true_eq] at haccepts
  exact haccepts.2

theorem exists_one (h : Calls name xs.length f) (hleast : f.minArguments = 1)
    (hmost : f.maxArguments = some 1) : ∃ x, xs = [x] := by
  have hge := h.length_ge
  have hle := h.length_le hmost
  rw [← List.length_eq_one_iff]
  omega

theorem exists_ifError (h : Calls name xs.length .ifError) : ∃ x y, xs = [x, y] := by
  have hge : 2 ≤ xs.length := h.length_ge
  have hle : xs.length ≤ 2 := h.length_le rfl
  match xs with
  | [x, y] => exact ⟨x, y, rfl⟩

theorem exists_ifThen (h : Calls name xs.length .ifThen) :
    ∃ x y zs, xs = x :: y :: zs ∧ zs.length ≤ 1 := by
  have hge : 2 ≤ xs.length := h.length_ge
  have hle : xs.length ≤ 3 := h.length_le rfl
  match xs with
  | x :: y :: zs =>
    rw [List.length_cons, List.length_cons] at hle
    exact ⟨x, y, zs, rfl, by omega⟩

end Calls

theorem eq_of_lazy {f : Function} (h : f.convention = .lazy) :
    f = .ifThen ∨ f = .ifError ∨ f = .isError := by
  cases f <;> simp [Function.convention] at h ⊢

theorem exists_calls_of_eval_eq_overflow {name : String} {xs : List Formula}
    (h : eval scope (.call name xs) = .error .overflow) : ∃ f, Calls name xs.length f := by
  rw [eval] at h
  split at h
  · cases h
  · split at h
    · exact ⟨_, ‹_›, ‹_›⟩
    · cases h

/-- An argument overflows if its value does, since reading cells does not. -/
theorem operand_argument_eq_overflow {x : Formula} :
    Function.operand (argument scope x) = .error .overflow ↔ eval scope x = .error .overflow := by
  unfold Function.operand argument
  dsimp only
  cases x with
  | range first last =>
    rw [rangeCells]
    dsimp only
    rw [map_eq_error, eval]
    refine iff_of_false (readCells_ne_overflow scope first last) fun h => ?_
    cases h
  | _ => exact map_eq_error

/-! ## Formulas -/

/-- How the value of a formula ends by an overflow: in a part that is reached, where the parts before it
have values, or in the function that is called. -/
inductive Overflows (scope : Scope) : Formula → Prop
  | unary {op : UnaryOp} {x : Formula} : Overflows scope x → Overflows scope (.unary op x)
  | left {op : BinaryOp} {x y : Formula} : Overflows scope x → Overflows scope (.binary op x y)
  | right {op : BinaryOp} {x y : Formula} {v : Option Scalar} :
    eval scope x = .ok v → Overflows scope y → Overflows scope (.binary op x y)
  | value {name : String} {f : Function} {before after : List Formula} {x : Formula} :
    Calls name (before ++ x :: after).length f → f.convention = .scalar →
    (∀ b ∈ before, ∃ v, eval scope b = .ok v) → Overflows scope x →
    Overflows scope (.call name (before ++ x :: after))
  | length {name : String} {x : Formula} {v : Option Scalar} {s : String} :
    Calls name [x].length .len → eval scope x = .ok v → Scalar.written scope.precision v = .ok s →
    Number.maxCount < s.toList.length → Overflows scope (.call name [x])
  | operand {name : String} {f : Function} {before after : List Formula} {x : Formula} :
    Calls name (before ++ x :: after).length f → f.convention = .range →
    (∀ b ∈ before, ∃ o, Function.operand (argument scope b) = .ok o) → Overflows scope x →
    Overflows scope (.call name (before ++ x :: after))
  | aggregate {name : String} {f : Function} {xs : List Formula} {operands : List Operand} :
    Calls name xs.length f → f.convention = .range →
    xs.mapM (fun x => Function.operand (argument scope x)) = .ok operands → f.Overflows operands →
    Overflows scope (.call name xs)
  | condition {name : String} {x y : Formula} {xs : List Formula} :
    Calls name (x :: y :: xs).length .ifThen → Overflows scope x →
    Overflows scope (.call name (x :: y :: xs))
  | chosen {name : String} {x y : Formula} {xs : List Formula} {v : Option Scalar} :
    Calls name (x :: y :: xs).length .ifThen → eval scope x = .ok v → Scalar.toBool v = .ok true →
    Overflows scope y → Overflows scope (.call name (x :: y :: xs))
  | otherwise {name : String} {x y z : Formula} {v : Option Scalar} :
    Calls name [x, y, z].length .ifThen → eval scope x = .ok v → Scalar.toBool v = .ok false →
    Overflows scope z → Overflows scope (.call name [x, y, z])
  | tried {name : String} {x y : Formula} :
    Calls name [x, y].length .ifError → Overflows scope x → Overflows scope (.call name [x, y])
  | fallback {name : String} {x y : Formula} {fault : Fault} :
    Calls name [x, y].length .ifError → eval scope x = .error (.fault fault) → Overflows scope y →
    Overflows scope (.call name [x, y])
  | tested {name : String} {x : Formula} :
    Calls name [x].length .isError → Overflows scope x → Overflows scope (.call name [x])

theorem eval_of_overflows {f : Formula} (h : Overflows scope f) :
    eval scope f = .error .overflow := by
  induction h with
  | unary _ ih => rw [eval, ih]; rfl
  | left _ ih => rw [eval, ih]; rfl
  | right hx _ ih => rw [eval, hx, ih]; rfl
  | value hf hscalar hbefore _ ih =>
    rw [hf.eval_scalar hscalar, bind_eq_error, mapM_eq_error]
    exact .inl ⟨_, _, _, rfl, hbefore, ih⟩
  | length hf hx hs hlong =>
    rw [hf.eval_scalar rfl, List.mapM_cons, hx]
    exact Function.applyScalar_eq_overflow.mpr ⟨rfl, _, _, rfl, hs, hlong⟩
  | operand hf hrange hbefore _ ih =>
    rw [hf.eval_range hrange, bind_eq_error, mapM_eq_error]
    exact .inl ⟨_, _, _, rfl, hbefore, operand_argument_eq_overflow.mpr ih⟩
  | aggregate hf hrange hoperands hover =>
    rw [hf.eval_range hrange, hoperands]
    exact Function.applyRange_eq_overflow.mpr hover
  | condition hf _ ih => rw [hf.eval_ifThen, ih]; rfl
  | chosen hf hx htrue _ ih =>
    rw [hf.eval_ifThen, hx, ← ih]
    simp [bind, Except.bind, htrue, Failure.lift]
  | otherwise hf hx hfalse _ ih =>
    rw [hf.eval_ifThen, hx, ← ih]
    simp [bind, Except.bind, hfalse, Failure.lift]
  | tried hf _ ih => rw [hf.eval_ifError, ih]
  | fallback hf hx _ ih => rw [hf.eval_ifError, hx, ← ih]
  | tested hf _ ih => rw [hf.eval_isError, ih]

section Call

variable {name : String} {f : Function} {xs : List Formula} (hf : Calls name xs.length f)
  (hxs : ∀ x ∈ xs, eval scope x = .error .overflow → Overflows scope x)
  (h : eval scope (.call name xs) = .error .overflow)

include hf hxs h

theorem overflows_scalar (hscalar : f.convention = .scalar) : Overflows scope (.call name xs) := by
  rw [hf.eval_scalar hscalar, bind_eq_error, mapM_eq_error] at h
  obtain ⟨before, x, after, rfl, hbefore, hx⟩ | ⟨vs, hvs, h⟩ := h
  · exact .value hf hscalar hbefore (hxs x (by simp) hx)
  · obtain ⟨rfl, v, s, rfl, hs, hlong⟩ := Function.applyScalar_eq_overflow.mp h
    obtain ⟨x, rfl⟩ := hf.exists_one rfl rfl
    rw [List.mapM_cons, bind_eq_ok] at hvs
    obtain ⟨w, hw, hvs⟩ := hvs
    cases hvs
    exact .length hf hw hs hlong

theorem overflows_range (hrange : f.convention = .range) : Overflows scope (.call name xs) := by
  rw [hf.eval_range hrange, bind_eq_error, mapM_eq_error] at h
  obtain ⟨before, x, after, rfl, hbefore, hx⟩ | ⟨operands, hoperands, h⟩ := h
  · rw [operand_argument_eq_overflow] at hx
    exact .operand hf hrange hbefore (hxs x (by simp) hx)
  · exact .aggregate hf hrange hoperands (Function.applyRange_eq_overflow.mp h)

theorem overflows_ifThen (hif : f = .ifThen) : Overflows scope (.call name xs) := by
  subst hif
  obtain ⟨x, y, zs, rfl, hzs⟩ := hf.exists_ifThen
  rw [hf.eval_ifThen, bind_eq_error] at h
  obtain h | ⟨v, hv, h⟩ := h
  · exact .condition hf (hxs x (by simp) h)
  obtain h | ⟨condition, hcondition, h⟩ := bind_eq_error.mp h
  · exact absurd h (Failure.lift_ne_overflow _)
  rw [Failure.lift_eq_ok] at hcondition
  cases condition with
  | true => exact .chosen hf hv hcondition (hxs y (by simp) h)
  | false =>
    match zs with
    | [] => cases h
    | [z] => exact .otherwise hf hv hcondition (hxs z (by simp) h)

theorem overflows_lazy (hlazy : f.convention = .lazy) : Overflows scope (.call name xs) := by
  obtain rfl | rfl | rfl := eq_of_lazy hlazy
  · exact overflows_ifThen hf hxs h rfl
  · obtain ⟨x, y, rfl⟩ := hf.exists_ifError
    rw [hf.eval_ifError] at h
    split at h
    · exact .fallback hf ‹_› (hxs y (by simp) h)
    · exact .tried hf (hxs x (by simp) h)
  · obtain ⟨x, rfl⟩ := hf.exists_one rfl rfl
    rw [hf.eval_isError] at h
    split at h
    · cases h
    · cases h
      exact .tested hf (hxs x (by simp) ‹_›)
    · cases h

end Call

mutual

theorem overflows_of_eval {f : Formula} (h : eval scope f = .error .overflow) : Overflows scope f := by
  match f with
  | .constant v => exact absurd h (Failure.lift_ne_overflow _)
  | .cell a => exact absurd h (read_ne_overflow scope a)
  | .range first last => cases h
  | .unary op x =>
    rw [eval, bind_eq_error] at h
    obtain h | ⟨v, -, h⟩ := h
    · exact .unary (overflows_of_eval h)
    · exact absurd h (applyUnary_ne_overflow op v)
  | .binary op x y =>
    rw [eval, bind_eq_error] at h
    obtain h | ⟨v, hv, h⟩ := h
    · exact .left (overflows_of_eval h)
    · rw [bind_eq_error] at h
      obtain h | ⟨w, -, h⟩ := h
      · exact .right hv (overflows_of_eval h)
      · exact absurd h (applyBinary_ne_overflow scope.precision op v w)
  | .call name xs =>
    have hxs : ∀ x ∈ xs, eval scope x = .error .overflow → Overflows scope x := overflows_of_mem
    obtain ⟨f, hf⟩ := exists_calls_of_eval_eq_overflow h
    cases hconvention : f.convention with
    | scalar => exact overflows_scalar hf hxs h hconvention
    | range => exact overflows_range hf hxs h hconvention
    | «lazy» => exact overflows_lazy hf hxs h hconvention

theorem overflows_of_mem {xs : List Formula} :
    ∀ x ∈ xs, eval scope x = .error .overflow → Overflows scope x := by
  match xs with
  | [] => simp
  | x :: xs =>
    intro y hy h
    obtain heq | hy := List.mem_cons.mp hy
    · rw [heq] at h ⊢
      exact overflows_of_eval h
    · exact overflows_of_mem y hy h

end

theorem eval_eq_overflow {f : Formula} : eval scope f = .error .overflow ↔ Overflows scope f :=
  ⟨overflows_of_eval, eval_of_overflows⟩

theorem not_overflows_constant (v : Value) : ¬(Formula.constant v).Overflows scope := nofun

/-! ## Calls that may overflow -/

theorem mem_callsOfAll {xs : List Formula} {c : String × Nat} :
    c ∈ callsOfAll xs ↔ ∃ x ∈ xs, c ∈ x.calls := by
  induction xs with
  | nil => simp [callsOfAll]
  | cons x xs ih => simp [callsOfAll, ih]

/-- Whether a formula calls, anywhere, a function that may overflow. -/
def Risks (f : Formula) : Prop := ∃ c ∈ f.calls, ∃ g, Function.named? c.1 = some g ∧ g.mayOverflow

theorem Risks.call {name : String} {xs : List Formula} {x : Formula} (h : x.Risks) (hx : x ∈ xs) :
    (Formula.call name xs).Risks := by
  obtain ⟨c, hc, hg⟩ := h
  exact ⟨c, List.mem_cons_of_mem _ (mem_callsOfAll.mpr ⟨x, hx, hc⟩), hg⟩

theorem Calls.risks {name : String} {xs : List Formula} {f : Function} (h : Calls name xs.length f)
    (hf : f.mayOverflow) : (Formula.call name xs).Risks :=
  ⟨_, List.mem_cons_self, f, h.named, hf⟩

/-- A formula without calls of the few functions that may overflow never does. -/
theorem Overflows.risks {f : Formula} (h : Overflows scope f) : f.Risks := by
  induction h with
  | unary _ ih => exact ih
  | left _ ih =>
    obtain ⟨c, hc, hg⟩ := ih
    exact ⟨c, List.mem_append_left _ hc, hg⟩
  | right _ _ ih =>
    obtain ⟨c, hc, hg⟩ := ih
    exact ⟨c, List.mem_append_right _ hc, hg⟩
  | length hf => exact hf.risks rfl
  | aggregate hf _ _ hover => exact hf.risks hover.mayOverflow
  | value _ _ _ _ ih => exact ih.call (by simp)
  | operand _ _ _ _ ih => exact ih.call (by simp)
  | condition _ _ ih => exact ih.call (by simp)
  | chosen _ _ _ _ ih => exact ih.call (by simp)
  | otherwise _ _ _ _ ih => exact ih.call (by simp)
  | tried _ _ ih => exact ih.call (by simp)
  | fallback _ _ _ ih => exact ih.call (by simp)
  | tested _ _ ih => exact ih.call (by simp)

/-! ## Guards -/

theorem calls_ifError : Calls "IFERROR" 2 .ifError := ⟨by decide, rfl⟩

theorem calls_isError : Calls "ISERROR" 1 .isError := ⟨by decide, rfl⟩

/-- A guard takes the value of what it guards for what that evaluates to alone, unless this overflows:
then the error is that of the guard, too. -/
theorem evaluate_guarded (scope : Scope) (e f : Formula) :
    (¬e.Overflows scope →
      evaluate scope (.call "IFERROR" [e, f]) = (do
        let v ← evaluate scope e
        if v.isError then evaluate scope f else return v) ∧
      evaluate scope (.call "ISERROR" [e]) = (do return .bool (← evaluate scope e).isError)) ∧
    (e.Overflows scope →
      ∀ g ∈ [e, .call "IFERROR" [e, f], .call "ISERROR" [e]],
        evaluate scope g = .ok (.error .typeMismatch)) := by
  constructor
  · intro hover
    rw [← eval_eq_overflow] at hover
    unfold evaluate
    rw [calls_ifError.eval_ifError, calls_isError.eval_isError]
    match eval scope e, hover with
    | .ok none, _ => exact ⟨rfl, rfl⟩
    | .ok (some x), _ => exact ⟨rfl, rfl⟩
    | .error (.fault fault), _ => exact ⟨rfl, rfl⟩
    | .error (.precision fault), _ => exact ⟨rfl, rfl⟩
    | .error .overflow, hover => contradiction
  · intro hover
    have hvalue : ∀ g : Formula, g.Overflows scope → evaluate scope g = .ok (.error .typeMismatch) := by
      intro g hg
      rw [evaluate, eval_of_overflows hg]
      rfl
    simp only [List.forall_mem_cons]
    exact ⟨hvalue e hover, hvalue _ (.tried calls_ifError hover), hvalue _ (.tested calls_isError hover),
      by simp⟩

/-- One and a half. -/
def sesqui : Number.Binary64 :=
  .finite false ⟨3 * 2 ^ 51, 1022, by decide, by decide, .inl (by decide)⟩

/-- A product of twenty whole numbers just below `2 ^ 53`, and then of one and a half. -/
def vastProduct : Formula :=
  .call "PRODUCT" (List.replicate 20 (.constant (.number (.int (2 ^ 53 - 1)))) ++
    [.constant (.number (.float sesqui))])

theorem overflows_vastProduct (scope : Scope) : vastProduct.Overflows scope := by
  let operands : List Operand :=
    List.replicate 20 (.single (some (.number (.int (2 ^ 53 - 1))))) ++
      [.single (some (.number (.float sesqui)))]
  refine @Overflows.aggregate scope _ .product _ operands ⟨by decide, rfl⟩ rfl rfl ?_
  refine ⟨List.replicate 20 (2 ^ 53 - 1), sesqui, [], by decide, ?_⟩
  decide +kernel

/-- A fault is guarded against, the vast product is not. -/
theorem evaluate_guarded_product :
    let scope : Scope := ⟨fun _ => none, ⟨none, none⟩, 9⟩
    let zero := Formula.constant (.number (.int 0))
    let faulty := Formula.constant (.error .cycle)
    (¬faulty.Overflows scope ∧
      evaluate scope (.call "IFERROR" [faulty, zero]) = .ok (.number (.int 0))) ∧
    vastProduct.Overflows scope ∧
      evaluate scope (.call "IFERROR" [vastProduct, zero]) = .ok (.error .typeMismatch) := by
  intro scope zero faulty
  have hfaulty : ¬faulty.Overflows scope := not_overflows_constant (.error .cycle)
  have hvast := overflows_vastProduct scope
  exact ⟨⟨hfaulty, ((evaluate_guarded scope faulty zero).1 hfaulty).1⟩, hvast,
    (evaluate_guarded scope vastProduct zero).2 hvast _ (by simp)⟩

end Formula
end Spreadsheet
