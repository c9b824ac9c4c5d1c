import Spreadsheet.Proofs.Function.Yielding

/-! Which functions end by an overflow, and on what. Calculations carry numbers that floating point can
take, so that no operator ends this way. An aggregate does when whole numbers, which it adds and
multiplies exactly, have outgrown every float and a float joins them; and so does counting more than there
are indices for. -/
namespace Spreadsheet

theorem Failure.lift_ne_overflow {α : Type} (x : Except Fault α) :
    Failure.lift x ≠ .error .overflow := by
  cases x <;> nofun

theorem Failure.lift_eq_ok {α : Type} {x : Except Fault α} {a : α} :
    Failure.lift x = .ok a ↔ x = .ok a := by
  cases x <;> simp [Failure.lift]

theorem Scalar.written_ne_overflow (precision : Int) (x : Option Scalar) :
    Scalar.written precision x ≠ .error .overflow := by
  unfold Scalar.written
  cases Scalar.toText precision x <;> nofun

theorem Failure.bind_ne_overflow {α β : Type} {x : Except Failure α} {f : α → Except Failure β}
    (hx : x ≠ .error .overflow) (hf : ∀ a, x = .ok a → f a ≠ .error .overflow) :
    (x >>= f) ≠ .error .overflow := by
  rw [Ne, bind_eq_error]
  rintro (h | ⟨a, ha, h⟩)
  · exact hx h
  · exact hf a ha h

/-! ## Numbers -/

namespace Number

theorem carryOn_ne_overflow (n : Number) : n.carryOn ≠ .error .overflow := Failure.lift_ne_overflow _

theorem orOverflow_eq_overflow {n : Option Number} :
    orOverflow n = .error .overflow ↔ n = none := by
  cases n <;> simp [orOverflow]

variable {a b : Number}

theorem Carried.exists_combine? (ha : a.Carried) (hb : b.Carried) (whole : Int → Int → Int)
    (float : Binary64 → Binary64 → Binary64) : ∃ c, combine? whole float a b = some c := by
  obtain ⟨s, m, hm, -⟩ := ha.exists_float?
  obtain ⟨t, k, hk, -⟩ := hb.exists_float?
  unfold combine?
  split
  · exact ⟨_, rfl⟩
  · rw [hm, hk]
    exact ⟨_, rfl⟩

theorem combine?_float (whole : Int → Int → Int) (float : Binary64 → Binary64 → Binary64) (a : Number)
    (x : Binary64) :
    combine? whole float a (.float x) = a.float?.map fun y => .float (float y x) := by
  cases a with
  | float y => rfl
  | int i =>
    have hx : (Number.float x).float? = some x := rfl
    unfold combine?
    dsimp only
    rw [hx]
    cases (Number.int i).float? <;> rfl

theorem float_combine? (whole : Int → Int → Int) (float : Binary64 → Binary64 → Binary64) (a : Number)
    (x : Binary64) :
    combine? whole float (.float x) a = a.float?.map fun y => .float (float x y) := by
  cases a with
  | float y => rfl
  | int i =>
    have hx : (Number.float x).float? = some x := rfl
    unfold combine?
    dsimp only
    rw [hx]
    cases (Number.int i).float? <;> rfl

theorem Carried.exists_div? (ha : a.Carried) (hb : b.Carried) : ∃ c, a.div? b = some c := by
  obtain ⟨s, m, hm, -⟩ := ha.exists_float?
  obtain ⟨t, k, hk, -⟩ := hb.exists_float?
  unfold div?
  split
  · exact ⟨_, rfl⟩
  · rw [hm, hk]
    exact ⟨_, rfl⟩

theorem Carried.power_ne_overflow (ha : a.Carried) (hb : b.Carried) :
    a.power b ≠ .error .overflow := by
  obtain ⟨s, m, hm, -⟩ := ha.exists_float?
  obtain ⟨t, k, hk, -⟩ := hb.exists_float?
  unfold power
  rw [hm, hk]
  dsimp only
  repeat' split
  all_goals nofun

theorem round_ne_overflow (n : Number) (digits : Int) : n.round digits ≠ .error .overflow := by
  unfold round
  dsimp only
  repeat' split
  · nofun
  · exact carryOn_ne_overflow _
  · exact carryOn_ne_overflow _

theorem ofCount_eq_overflow {n : Nat} : ofCount n = .error .overflow ↔ maxCount < n := by
  unfold ofCount
  split <;> simp <;> omega

end Number

/-! ## Running totals -/

namespace Operand

/-- What an operand contributes to a total, in order: a single value as a number, or what is wrong with
it, and of cells those that hold numbers. -/
def contributions : Operand → List (Except Fault Number)
  | .single v => [Scalar.toNumber v]
  | .cells vs => vs.filterMap fun
      | some (.number n) => some n.carry
      | _ => none

theorem carried_of_mem_contributions {o : Operand} {n : Number} (h : .ok n ∈ o.contributions) :
    n.Carried := by
  cases o with
  | single v => exact Number.carried_of_toNumber (List.mem_singleton.mp h).symm
  | cells vs =>
    obtain ⟨v, -, hv⟩ := List.mem_filterMap.mp h
    split at hv
    · exact Number.carried_of_carry (Option.some.inj hv)
    · contradiction

variable {σ : Type} (step : σ → Number → Except Failure σ)

/-- Takes a contribution into what was made of those before it. -/
def take (s : σ) (c : Except Fault Number) : Except Failure σ := do step s (← Failure.lift c)

theorem take_ok (s : σ) (n : Number) : take step s (.ok n) = step s n := rfl

theorem foldNumbers_eq_foldlM (s : σ) (o : Operand) :
    foldNumbers step s o = o.contributions.foldlM (take step) s := by
  cases o with
  | single v =>
    rw [contributions, List.foldlM_cons]
    exact (bind_pure _).symm
  | cells vs =>
    rw [contributions, List.foldlM_filterMap]
    unfold foldNumbers
    dsimp only
    congr
    funext s v
    obtain _ | _ | _ | _ := v <;> rfl

/-- An aggregate goes through all contributions from left to right. -/
theorem foldAll_eq_foldlM (s : σ) (os : List Operand) :
    foldAll step s os = (os.flatMap contributions).foldlM (take step) s := by
  unfold foldAll
  induction os generalizing s with
  | nil => rfl
  | cons o os ih =>
    rw [List.foldlM_cons, List.flatMap_cons, List.foldlM_append, foldNumbers_eq_foldlM]
    simp only [ih]

/-- Whether the first numbers are whole, their total is past every float, and a float joins it. -/
def Outgrows (combine : Int → Int → Int) (start : Int) (cs : List (Except Fault Number)) : Prop :=
  ∃ (wholes : List Int) (x : Number.Binary64) (rest : List (Except Fault Number)),
    cs = wholes.map (fun i => .ok (.int i)) ++ .ok (.float x) :: rest ∧
      (Number.int (wholes.foldl combine start)).float? = none

section Total

variable {whole : Int → Int → Int} {float : Number.Binary64 → Number.Binary64 → Number.Binary64}
  {cs : List (Except Fault Number)}

theorem outgrows_cons_int {start i : Int} :
    Outgrows whole start (.ok (.int i) :: cs) ↔ Outgrows whole (whole start i) cs := by
  constructor
  · rintro ⟨wholes, x, rest, hcs, hnone⟩
    cases wholes with
    | nil => simp at hcs
    | cons j wholes =>
      simp only [List.map_cons, List.cons_append, List.cons.injEq, Except.ok.injEq,
        Number.int.injEq] at hcs
      obtain ⟨rfl, hcs⟩ := hcs
      exact ⟨wholes, x, rest, hcs, hnone⟩
  · rintro ⟨wholes, x, rest, hcs, hnone⟩
    exact ⟨i :: wholes, x, rest, by simp [hcs], hnone⟩

theorem outgrows_cons_float {start : Int} {x : Number.Binary64} :
    Outgrows whole start (.ok (.float x) :: cs) ↔ (Number.int start).float? = none := by
  constructor
  · rintro ⟨wholes, y, rest, hcs, hnone⟩
    cases wholes with
    | nil => exact hnone
    | cons j wholes => simp at hcs
  · intro hnone
    exact ⟨[], x, cs, rfl, hnone⟩

theorem not_outgrows_cons_error {start : Int} {f : Fault} : ¬Outgrows whole start (.error f :: cs) := by
  rintro ⟨wholes, x, rest, hcs, -⟩
  cases wholes <;> simp at hcs

/-- A total that is floating point stays so. -/
theorem foldlM_float_ne_overflow (hcs : ∀ n, .ok n ∈ cs → n.Carried) (x : Number.Binary64) :
    cs.foldlM (take fun s n => Number.orOverflow (Number.combine? whole float s n)) (.float x) ≠
      .error .overflow := by
  induction cs generalizing x with
  | nil => nofun
  | cons c cs ih =>
    rw [List.foldlM_cons]
    cases c with
    | error f => nofun
    | ok n =>
      obtain ⟨s, m, hm, -⟩ := (hcs n List.mem_cons_self).exists_float?
      have hnext : Number.combine? whole float (.float x) n = some (.float (float x (.finite s m))) := by
        rw [Number.float_combine?, hm, Option.map_some]
      rw [take_ok, hnext]
      exact ih (fun k hk => hcs k (List.mem_cons_of_mem _ hk)) _

/-- A total overflows where it outgrows the floats. -/
theorem foldlM_eq_overflow (hcs : ∀ n, .ok n ∈ cs → n.Carried) (start : Int) :
    cs.foldlM (take fun s n => Number.orOverflow (Number.combine? whole float s n)) (.int start) =
      .error .overflow ↔ Outgrows whole start cs := by
  induction cs generalizing start with
  | nil =>
    refine ⟨nofun, ?_⟩
    rintro ⟨wholes, x, rest, hcs, -⟩
    simp at hcs
  | cons c cs ih =>
    have hrest := fun k (hk : .ok k ∈ cs) => hcs k (List.mem_cons_of_mem c hk)
    rw [List.foldlM_cons]
    cases c with
    | error f => exact ⟨nofun, fun h => absurd h not_outgrows_cons_error⟩
    | ok n =>
      cases n with
      | int i =>
        rw [outgrows_cons_int, ← ih hrest, take_ok]
        rfl
      | float x =>
        rw [outgrows_cons_float, take_ok, Number.combine?_float]
        cases (Number.int start).float? with
        | none => exact ⟨fun _ => rfl, fun _ => rfl⟩
        | some y =>
          refine ⟨fun h => ?_, nofun⟩
          exact absurd h (foldlM_float_ne_overflow hrest _)

end Total

/-! ## Functions -/

variable {operands : List Operand}

theorem carried_of_mem_flatMap {n : Number} (h : .ok n ∈ operands.flatMap contributions) :
    n.Carried := by
  obtain ⟨o, -, ho⟩ := List.mem_flatMap.mp h
  exact carried_of_mem_contributions ho

theorem sum_eq_overflow :
    sum operands = .error .overflow ↔ Outgrows (· + ·) 0 (operands.flatMap contributions) := by
  unfold sum
  rw [bind_eq_error, foldAll_eq_foldlM]
  simp only [Number.carryOn_ne_overflow, and_false, exists_false, or_false]
  exact foldlM_eq_overflow (fun _ => carried_of_mem_flatMap) 0

theorem product_eq_overflow :
    product operands = .error .overflow ↔ Outgrows (· * ·) 1 (operands.flatMap contributions) := by
  unfold product
  rw [bind_eq_error, foldAll_eq_foldlM]
  simp only [Number.carryOn_ne_overflow, and_false, exists_false, or_false]
  exact foldlM_eq_overflow (fun _ => carried_of_mem_flatMap) 1

theorem foldAll_ne_overflow {step : σ → Number → Except Failure σ}
    (hstep : ∀ s n, step s n ≠ .error .overflow) (s : σ) : foldAll step s operands ≠ .error .overflow := by
  rw [foldAll_eq_foldlM, Ne, foldlM_eq_error]
  rintro ⟨before, c, after, t, -, -, hfail⟩
  exact Failure.bind_ne_overflow (Failure.lift_ne_overflow c) (fun n _ => hstep t n) hfail

theorem extreme_ne_overflow (precedes : Number → Number → Bool) :
    extreme precedes operands ≠ .error .overflow :=
  Failure.bind_ne_overflow (foldAll_ne_overflow (by nofun) _) (by nofun)

/-- What is collected are the contributions, if nothing is wrong with any of them. -/
theorem foldlM_collect_eq_ok {cs : List (Except Fault Number)} {before collected : List Number} :
    cs.foldlM (take fun s n => .ok (n :: s)) before = .ok collected ↔
      ∃ ns : List Number, cs = ns.map .ok ∧ collected = ns.reverse ++ before := by
  induction cs generalizing before with
  | nil => simp [pure, Except.pure, eq_comm]
  | cons c cs ih =>
    rw [List.foldlM_cons]
    cases c with
    | error f =>
      refine ⟨nofun, ?_⟩
      rintro ⟨ns, hns, -⟩
      cases ns <;> simp at hns
    | ok n =>
      change cs.foldlM _ (n :: before) = _ ↔ _
      rw [ih]
      constructor
      · rintro ⟨ns, rfl, rfl⟩
        exact ⟨n :: ns, rfl, by simp⟩
      · rintro ⟨ns, hns, rfl⟩
        cases ns with
        | nil => simp at hns
        | cons k ns =>
          simp only [List.map_cons, List.cons.injEq, Except.ok.injEq] at hns
          obtain ⟨rfl, rfl⟩ := hns
          exact ⟨ns, rfl, by simp⟩

theorem div?_int_eq_none {total : Number} {count : Nat} :
    total.div? (.int count) = none ↔ (∃ x, total = .float x) ∧ (Number.int count).float? = none := by
  cases total with
  | int i => simp [Number.div?]
  | float x =>
    have hx : (Number.float x).float? = some x := rfl
    unfold Number.div?
    dsimp only
    rw [hx]
    cases (Number.int count).float? <;> simp

theorem foldAll_collect_eq_ok {collected : List Number} :
    foldAll (fun s n => .ok (n :: s)) [] operands = .ok collected ↔
      ∃ ns : List Number, operands.flatMap contributions = ns.map .ok ∧ collected = ns.reverse := by
  rw [foldAll_eq_foldlM, foldlM_collect_eq_ok]
  simp only [List.append_nil]

theorem mean_eq_overflow {count : Nat} : (do
      let total ← sum operands
      let mean ← Number.orOverflow (total.div? (.int count))
      mean.carryOn) = .error .overflow ↔ sum operands = .error .overflow ∨
        (∃ x, sum operands = .ok (.float x)) ∧ (Number.int count).float? = none := by
  rw [bind_eq_error]
  simp only [bind_eq_error, Number.orOverflow_eq_overflow, div?_int_eq_none,
    Number.carryOn_ne_overflow, and_false, exists_false, or_false]
  grind

/-- Of no numbers there is neither an overflow nor too great a count. -/
theorem contributions_ne_nil (h : sum operands = .error .overflow ∨ (∃ x, sum operands = .ok (.float x)) ∧
    (Number.int (operands.flatMap contributions).length).float? = none) :
    operands.flatMap contributions ≠ [] := by
  intro hnone
  rw [sum_eq_overflow, hnone] at h
  obtain ⟨wholes, x, rest, hcs, -⟩ | ⟨-, hcount⟩ := h
  · simp at hcs
  · obtain ⟨s, m, hm, -⟩ := Number.carried_zero.exists_float?
    rw [List.length_nil, Int.natCast_zero, hm] at hcount
    contradiction

/-- A mean overflows where the sum does, or if a float is divided by a count that is past every float. -/
theorem average_eq_overflow : average operands = .error .overflow ↔
    (∃ ns : List Number, operands.flatMap contributions = ns.map .ok) ∧
      (sum operands = .error .overflow ∨ (∃ x, sum operands = .ok (.float x)) ∧
        (Number.int (operands.flatMap contributions).length).float? = none) := by
  unfold average
  rw [bind_eq_error, or_iff_right (foldAll_ne_overflow (by nofun) _)]
  constructor
  · rintro ⟨collected, hcollected, h⟩
    obtain ⟨ns, hns, rfl⟩ := foldAll_collect_eq_ok.mp hcollected
    split at h
    · contradiction
    · rw [mean_eq_overflow, List.length_reverse] at h
      exact ⟨⟨ns, hns⟩, by rwa [hns, List.length_map]⟩
  · rintro ⟨⟨ns, hns⟩, h⟩
    have hsome := contributions_ne_nil h
    refine ⟨ns.reverse, foldAll_collect_eq_ok.mpr ⟨ns, hns, rfl⟩, ?_⟩
    rw [hns, List.length_map] at h
    rw [if_neg, mean_eq_overflow, List.length_reverse]
    · exact h
    · rw [List.isEmpty_reverse, List.isEmpty_iff]
      rintro rfl
      exact hsome hns

end Operand

namespace Function

/-- Whether a function that takes ranges overflows on its operands. -/
def Overflows (f : Function) (operands : List Operand) : Prop :=
  let contributions := operands.flatMap Operand.contributions
  match f with
  | .sum => Operand.Outgrows (· + ·) 0 contributions
  | .product => Operand.Outgrows (· * ·) 1 contributions
  | .average => (∃ ns : List Number, contributions = ns.map .ok) ∧
      (Operand.Outgrows (· + ·) 0 contributions ∨
        (∃ x, Operand.sum operands = .ok (.float x)) ∧ (Number.int contributions.length).float? = none)
  | .count => Number.maxCount < (operands.flatMap Operand.values).countP Operand.isNumber
  | .counta => Number.maxCount < (operands.flatMap Operand.values).countP Option.isSome
  | _ => False

/-- The functions that overflow on some operands. -/
def mayOverflow : Function → Bool
  | .sum | .product | .average | .count | .counta | .len => true
  | _ => false

theorem Overflows.mayOverflow {f : Function} {operands : List Operand} (h : f.Overflows operands) :
    f.mayOverflow := by
  cases f <;> first | rfl | exact h.elim

variable {precision : Int} {f : Function}

theorem number_bind_eq_overflow {x : Except Failure Number} :
    (do Outcome.number (← x)) = .error .overflow ↔ x = .error .overflow := by
  rw [bind_eq_error]
  simp [Outcome.number]

theorem truths_ne_overflow (o : Operand) : o.truths ≠ .error .overflow := by
  cases o with
  | single v => exact Failure.bind_ne_overflow (Failure.lift_ne_overflow _) (by nofun)
  | cells vs => nofun

theorem allTruths_ne_overflow (operands : List Operand) :
    Operand.allTruths operands ≠ .error .overflow := by
  refine Failure.bind_ne_overflow ?_ fun found _ => ?_
  · rw [Ne, mapM_eq_error]
    rintro ⟨before, o, after, -, -, h⟩
    exact truths_ne_overflow o h
  · split <;> nofun

theorem applyRange_eq_overflow {operands : List Operand} :
    f.applyRange precision operands = .error .overflow ↔ f.Overflows operands := by
  have htruths : ∀ p : List Bool → Bool,
      (do Outcome.bool (p (← Operand.allTruths operands))) ≠ .error .overflow := fun p =>
    Failure.bind_ne_overflow (allTruths_ne_overflow operands) (by nofun)
  have hjoin : (do Outcome.text (String.join
      (← (operands.flatMap Operand.values).mapM (Scalar.written precision)))) ≠ .error .overflow := by
    refine Failure.bind_ne_overflow ?_ (by nofun)
    rw [Ne, mapM_eq_error]
    rintro ⟨before, x, after, -, -, h⟩
    exact Scalar.written_ne_overflow precision x h
  unfold applyRange Overflows
  cases f with
  | sum => rw [number_bind_eq_overflow, Operand.sum_eq_overflow]
  | product => rw [number_bind_eq_overflow, Operand.product_eq_overflow]
  | min => exact iff_of_false (number_bind_eq_overflow.not.mpr (Operand.extreme_ne_overflow _)) id
  | max => exact iff_of_false (number_bind_eq_overflow.not.mpr (Operand.extreme_ne_overflow _)) id
  | average => rw [number_bind_eq_overflow, Operand.average_eq_overflow, Operand.sum_eq_overflow]
  | count => rw [number_bind_eq_overflow, Operand.countWhere, Number.ofCount_eq_overflow]
  | counta => rw [number_bind_eq_overflow, Operand.countWhere, Number.ofCount_eq_overflow]
  | and => exact iff_of_false (htruths _) id
  | or => exact iff_of_false (htruths _) id
  | _ => exact iff_of_false hjoin id

theorem applyOne_eq_overflow {x : Option Scalar} :
    f.applyOne precision x = .error .overflow ↔
      f = .len ∧ ∃ s, Scalar.written precision x = .ok s ∧ Number.maxCount < s.toList.length := by
  have hnumber : Failure.lift (Scalar.toNumber x) ≠ .error .overflow := Failure.lift_ne_overflow _
  have hwritten := Scalar.written_ne_overflow precision x
  unfold applyOne
  dsimp only
  cases f with
  | len =>
    rw [bind_eq_error, or_iff_right hwritten]
    simp only [number_bind_eq_overflow, Number.ofCount_eq_overflow, true_and]
  | sqrt =>
    refine iff_of_false (Failure.bind_ne_overflow hnumber fun n hn => ?_) (by nofun)
    obtain ⟨s, m, hm, -⟩ := (Number.carried_of_toNumber (Failure.lift_eq_ok.mp hn)).exists_float?
    rw [hm]
    split <;> nofun
  | round =>
    refine iff_of_false (Failure.bind_ne_overflow hnumber fun n _ => ?_) (by nofun)
    exact number_bind_eq_overflow.not.mpr (Number.round_ne_overflow n 0)
  | int =>
    refine iff_of_false (Failure.bind_ne_overflow hnumber fun n _ => ?_) (by nofun)
    exact number_bind_eq_overflow.not.mpr (Number.carryOn_ne_overflow _)
  | not => exact iff_of_false (Failure.bind_ne_overflow (Failure.lift_ne_overflow _) (by nofun)) (by nofun)
  | isBlank => exact iff_of_false (by nofun) (by nofun)
  | abs => exact iff_of_false (Failure.bind_ne_overflow hnumber (by nofun)) (by nofun)
  | _ => exact iff_of_false (Failure.bind_ne_overflow hwritten (by nofun)) (by nofun)

theorem applyTwo_ne_overflow (f : Function) (x y : Option Scalar) :
    f.applyTwo x y ≠ .error .overflow := by
  refine Failure.bind_ne_overflow (Failure.lift_ne_overflow _) fun a ha => ?_
  refine Failure.bind_ne_overflow (Failure.lift_ne_overflow _) fun b hb => ?_
  have ha := Number.carried_of_toNumber (Failure.lift_eq_ok.mp ha)
  have hb := Number.carried_of_toNumber (Failure.lift_eq_ok.mp hb)
  split
  · exact number_bind_eq_overflow.not.mpr (Number.round_ne_overflow _ _)
  · split
    · nofun
    · obtain ⟨c, hc⟩ : ∃ c, a.mod? b = some c := ha.exists_combine? hb _ _
      rw [hc]
      nofun
  · exact number_bind_eq_overflow.not.mpr (ha.power_ne_overflow hb)

theorem applyScalar_eq_overflow {values : List (Option Scalar)} :
    f.applyScalar precision values = .error .overflow ↔
      f = .len ∧ ∃ x s, values = [x] ∧ Scalar.written precision x = .ok s ∧
        Number.maxCount < s.toList.length := by
  match values with
  | [x] => simp [applyScalar, applyOne_eq_overflow]
  | [x, y] => simp [applyScalar, applyTwo_ne_overflow]
  | [] => simp [applyScalar, Outcome.fault]
  | _ :: _ :: _ :: _ => simp [applyScalar, Outcome.fault]

end Function
end Spreadsheet
