import Spreadsheet.Proofs.Formula.FirstError

/-! The range of arithmetic. Operators and functions of numbers narrow their operands, their result or both,
so that no number past the range of calculations comes of them, whatever is in the cells. A count alone
is never narrowed. -/
namespace Spreadsheet

/-- Whether a value is an error, a whole number below `2 ^ 53` or a finite float. -/
def Value.InRange : Value → Prop
  | .number (.int i) => i.natAbs < 2 ^ 53
  | .number (.float x) => x.isFinite
  | .error _ => True
  | _ => False

theorem Number.Carried.inRange {n : Number} (h : n.Carried) : (Value.number n).InRange := by
  cases n with
  | int i => exact h
  | float x => exact h

def Function.isNumeric (f : Function) : Bool :=
  f ∈ [.sum, .product, .min, .max, .average, .count, .counta, .abs, .round, .int, .mod, .sqrt, .power]

theorem Function.result?_of_isNumeric {f : Function} (h : f.isNumeric) :
    f.result? = some .number ∨ f.result? = some .count ∧ f.convention = .range := by
  cases f <;> first | exact .inl rfl | exact .inr ⟨rfl, rfl⟩ | contradiction

namespace Formula

variable {scope : Scope} {f : Formula}

/-- Whether the root of a formula is an operator or a function of numbers. -/
def isNumeric : Formula → Bool
  | .unary _ _ => true
  | .binary op _ _ => op ∈ [.add, .subtract, .multiply, .divide, .power]
  | .call name _ => (Function.named? name).any Function.isNumeric
  | _ => false

/-- Whether a formula counts its parts, and there are too many to be sure of the range. -/
def Overcounts (f : Formula) : Prop :=
  f.result? = some .count ∧ ∃ parts, f.parts? = some parts ∧ 2 ^ 53 ≤ parts.length

theorem length_of_mapM_eval {parts : List Formula} {values : List (Option Scalar)}
    (h : parts.mapM (eval scope) = .ok values) : values.length = parts.length := by
  have hvalues : ∀ x ∈ parts, (Regime.free scope.precision).Yields (fun _ => True) (eval scope x) :=
    fun x _ => .free (eval scope x)
  have hlist := Regime.Yields.mapM hvalues
  rw [h] at hlist
  exact hlist.1

/-- No more is counted than there are parts. -/
theorem count_le_length {name : String} {xs : List Formula} {g : Function} (hg : Calls name xs.length g)
    (hrange : g.convention = .range) (hcount : g.result? = some .count) {x : Option Scalar}
    (h : eval scope (.call name xs) = .ok x) :
    ∃ n : Nat, n ≤ (xs.flatMap spread).length ∧ x = some (.number (.int n)) := by
  rw [hg.eval_range hrange] at h
  obtain ⟨operands, hoperands, h⟩ := bind_eq_ok.mp h
  -- One value for each part, and no more than these are counted.
  have hvalues : (xs.flatMap spread).mapM (eval scope) = .ok (operands.flatMap Operand.values) := by
    rw [mapM_spread, hoperands]
    rfl
  have hcounted : ∃ p, (do Outcome.number (← Operand.countWhere p operands)) = .ok x := by
    cases g <;> cases hrange <;> cases hcount
    case count => exact ⟨_, h⟩
    case counta => exact ⟨_, h⟩
  obtain ⟨p, hp⟩ := hcounted
  obtain ⟨m, hm, hx⟩ := bind_eq_ok.mp hp
  unfold Operand.countWhere Number.ofCount at hm
  split at hm
  · cases hm
    cases hx
    exact ⟨_, List.countP_le_length.trans (length_of_mapM_eval hvalues).le, rfl⟩
  · contradiction

theorem result?_of_isNumeric (h : f.isNumeric) : f.result? = some .number ∨
    f.result? = some .count ∧ ∃ name xs g, f = .call name xs ∧ Function.named? name = some g ∧
      g.convention = .range ∧ g.result? = some .count := by
  cases f with
  | unary op x => exact .inl rfl
  | binary op x y => cases op <;> first | exact .inl rfl | contradiction
  | call name xs =>
    rw [isNumeric] at h
    rw [result?]
    cases hnamed : Function.named? name with
    | none =>
      rw [hnamed] at h
      contradiction
    | some g =>
      rw [hnamed] at h
      obtain hresult | ⟨hresult, hrange⟩ := Function.result?_of_isNumeric h
      · exact .inl hresult
      · exact .inr ⟨hresult, name, xs, g, rfl, hnamed, hrange, hresult⟩
  | _ => contradiction

/-- What comes of arithmetic is a number, and in range unless too much is counted. -/
theorem exists_number_of_eval (hf : f.isNumeric) {x : Option Scalar} (h : eval scope f = .ok x) :
    ∃ n : Number, x = some (.number n) ∧ (n.Carried ∨ f.Overcounts ∧ ∃ k : Nat, n = .int k) := by
  obtain hresult | ⟨hresult, name, xs, g, rfl, hnamed, hrange, hcount⟩ := result?_of_isNumeric hf
  · cases holds_of_eval hresult h with
    | number hn => exact ⟨_, rfl, .inl hn⟩
  · have hg : Calls name xs.length g := by
      refine ⟨hnamed, ?_⟩
      by_contra haccepts
      rw [eval, hnamed] at h
      dsimp only at h
      rw [if_neg haccepts] at h
      contradiction
    have hparts : (call name xs).parts? = some (xs.flatMap spread) :=
      parts?_call_eq_some.mpr ⟨g, hg, .inr ⟨hrange, rfl⟩⟩
    obtain ⟨n, hn, rfl⟩ := count_le_length hg hrange hcount h
    refine ⟨_, rfl, ?_⟩
    by_cases hlong : 2 ^ 53 ≤ (xs.flatMap spread).length
    · exact .inr ⟨⟨hresult, _, hparts, hlong⟩, n, rfl⟩
    · exact .inl (show n < 2 ^ 53 by omega)

/-- Whatever is in cells and constants, arithmetic in the end gives an error, a whole number below `2 ^ 53`
or a finite float, if anything at all, unless it is a count of `2 ^ 53` parts or more. Within the greatest
precision something comes of it where no whole number and no row is too long to write. -/
theorem arithmetic_in_range (f : Formula) (hf : f.isNumeric) (scope : Scope) :
    (∀ v, evaluate scope f = .ok v → v.InRange ∨ f.Overcounts ∧ ∃ n : Nat, v = .number (.int n)) ∧
    (f.Legible scope → Number.Precise scope.precision → ∃ v, evaluate scope f = .ok v) := by
  refine ⟨fun v h => ?_, Legible.exists_evaluate⟩
  unfold evaluate at h
  split at h
  · rename_i hx
    obtain ⟨n, hn, -⟩ := exists_number_of_eval hf hx
    contradiction
  · rename_i s hx
    cases h
    obtain ⟨n, hn, hcarried | ⟨hcounts, k, rfl⟩⟩ := exists_number_of_eval hf hx
    · cases hn
      exact .inl hcarried.inRange
    · cases hn
      exact .inr ⟨hcounts, k, rfl⟩
  · obtain ⟨kind, -, rfl⟩ := map_eq_ok.mp h
    exact .inl trivial

/-- The greatest whole number of the range and one make a float. -/
theorem arithmetic_in_range_sum :
    let greatest : Value := .number (.int (2 ^ 53 - 1))
    let scope : Scope := ⟨fun _ => some greatest, ⟨none, none⟩, 9⟩
    let f := Formula.binary .add (.cell ⟨0, 0⟩) (.constant (.number (.int 1)))
    f.isNumeric ∧ f.Legible scope ∧ ∃ v, evaluate scope f = .ok v ∧ v.InRange := by
  intro greatest scope f
  have hlegible : f.Legible scope := by
    refine ⟨fun v hv => ?_, fun a _ _ v hv => ?_, fun a _ hout => absurd rfl hout⟩
    · cases List.mem_singleton.mp hv
      exact Number.isWritable_of_lt_maxExactInt (by decide)
    · cases hv
      exact Number.isWritable_of_lt_maxExactInt (by decide)
  obtain ⟨hrange, hvalue⟩ := arithmetic_in_range f rfl scope
  obtain ⟨v, hv⟩ := hvalue hlegible ⟨by decide, by decide⟩
  refine ⟨rfl, hlegible, v, hv, (hrange v hv).resolve_right ?_⟩
  exact fun hcounts => nomatch hcounts.1.1

end Formula
end Spreadsheet
