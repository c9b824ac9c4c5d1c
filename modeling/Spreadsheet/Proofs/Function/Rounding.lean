import Spreadsheet.Function.Apply
import Spreadsheet.Proofs.Number.Significant

/-! Rounding to a number of digits is exact on the decimal that a number's text denotes. Three cases meet:
numbers of digits that no floating-point number has are cut to the greatest that are looked at, a number with
too many digits for the result is left as it is, and anything else is rounded. In none of them is the result
another one than the nearest multiple of the power of ten that was asked for. -/
namespace Spreadsheet

namespace Number

/-- The digits to keep, as far as they are looked at. -/
def clamped (digits : Int) : Int := max (-maxRoundingDigits) (min digits maxRoundingDigits)

/-- Only the digits that are looked at count. -/
theorem round_eq_of_clamped (n : Number) {digits digits' : Int} (h : clamped digits = clamped digits') :
    n.round digits = n.round digits' := by
  unfold clamped at h
  unfold round
  rw [h]

/-! ## The three cases -/

namespace Decimal.Ranged

variable {d : Decimal} {digits : Int} {q : ℚ}

/-- Beyond the digits that are looked at there is nothing to round, on one side because every digit is kept
and on the other because none is. -/
theorem roundsTo_of_clamped (h : d.Ranged) (hq : RoundsTo (10 ^ (-clamped digits)) d.value q) :
    RoundsTo (10 ^ (-digits)) d.value q := by
  unfold clamped maxRoundingDigits at hq
  by_cases hlow : digits < -400
  · have hclamped : -max (-400) (min digits 400) = 400 := by omega
    have hpower : (10 : ℚ) ^ (400 : ℤ) ≤ 10 ^ (-digits) :=
      zpow_le_zpow_right₀ (by norm_num) (by omega)
    rw [hclamped] at hq
    rw [hq.unique (.of_small h.abs_value_lt)]
    exact .of_small (lt_of_lt_of_le h.abs_value_lt hpower)
  by_cases hhigh : 400 < digits
  · have hdigits : ∀ {e : Int}, e ≤ -400 → RoundsTo (10 ^ e) d.value d.value := by
      intro e he
      refine roundsTo_self fun hzero => ?_
      have := h.le_exponent hzero
      omega
    rw [hq.unique (hdigits (by omega))]
    exact hdigits (by omega)
  · have hclamped : max (-400) (min digits 400) = digits := by omega
    rwa [hclamped] at hq

/-- A decimal with too many digits for the result has none behind the last one to keep. -/
theorem roundsTo_of_refused (h : d.Ranged) (hmany : roundingPrecision < d.pointPosition + digits) :
    RoundsTo (10 ^ (-digits)) d.value d.value := by
  have hcount := h.digitCount_le
  unfold roundingPrecision pointPosition at hmany
  exact roundsTo_self fun _ => by omega

end Decimal.Ranged

/-- What becomes of the exact result of rounding the decimal `d` that a number's text denotes. The number
itself stands for `d`; any other result is converted once, by its digits to a whole number or a float. -/
inductive Converts (n : Number) (d : Decimal) (digits : Int) : ℚ → Except Failure Number → Prop where
  | unchanged : Converts n d digits d.value (.ok n)
  | whole (i : Int) : digits ≤ 0 → Converts n d digits i (carryOn (.int i))
  | float (e : Decimal) : 0 < digits → Converts n d digits e.value (carryOn (.float e.toBinary))

theorem Converts.congr {n : Number} {d d' : Decimal} {digits : Int} {q : ℚ}
    {outcome : Except Failure Number} (h : n.Converts d digits q outcome) (hvalue : d'.value = d.value) :
    n.Converts d' digits q outcome := by
  cases h with
  | unchanged => exact hvalue ▸ .unchanged
  | whole i hdigits => exact .whole i hdigits
  | float e hdigits => exact .float e hdigits

theorem exists_roundsTo_round {n : Number} (h : n.decimal.Ranged) (digits : Int) : ∃ q,
    RoundsTo (10 ^ (-digits)) n.decimal.value q ∧ n.Converts n.decimal digits q (n.round digits) := by
  have hsign : clamped digits ≤ 0 ↔ digits ≤ 0 := by
    unfold clamped maxRoundingDigits
    omega
  unfold round
  rw [show max (-maxRoundingDigits) (min digits maxRoundingDigits) = clamped digits from rfl]
  dsimp only
  split
  · rename_i hrefused
    exact ⟨_, h.roundsTo_of_clamped (h.roundsTo_of_refused hrefused.2), .unchanged⟩
  · have hrounded := h.roundsTo_of_clamped (n.decimal.roundsTo_roundTo (-clamped digits))
    split
    · rename_i hwhole
      have hvalue := Decimal.truncate_eq_value (d := n.decimal.roundTo (-clamped digits))
        (Int.neg_nonneg.mpr hwhole)
      rw [← hvalue] at hrounded
      exact ⟨_, hrounded, .whole _ (hsign.mp hwhole)⟩
    · rename_i hfraction
      exact ⟨_, hrounded, .float _ (Int.not_le.mp (hsign.not.mp hfraction))⟩

/-! ## The digits asked for -/

theorem Carried.carry_eq {n : Number} (h : n.Carried) : n.carry = .ok n := by
  have hcarried : n.carried? = some n := by
    cases n with
    | int i => exact if_pos h
    | float x => exact if_pos h
  unfold carry
  rw [hcarried]

/-- A whole number from `2 ^ 53` on is still a great one as a float. -/
theorem clamped_truncate_ofInt {i : Int} (hlarge : maxExactInt ≤ i.natAbs)
    (hfinite : (Binary64.ofInt i).isFinite) : clamped (Binary64.ofInt i).truncate = clamped i := by
  unfold Binary64.ofInt Binary64.ofRatio at hfinite ⊢
  obtain ⟨m, hnearest⟩ := Binary64.exists_nearest?_of_isFinite hfinite
  have hunits := Magnitude.le_two_mul_units hnearest
  have hlimit : 2 * 400 ≤ maxExactInt := by decide
  have hmany : 400 ≤ m.units / Binary64.one := by
    rw [Nat.le_div_iff_mul_le Magnitude.one_pos]
    have := Nat.mul_le_mul_right Binary64.one (hlimit.trans hlarge)
    rw [Nat.mul_assoc] at this
    omega
  rw [Binary64.ofUnits_of_nearest? _ hnearest]
  unfold Binary64.truncate clamped maxRoundingDigits
  dsimp only
  generalize m.units / Binary64.one = whole at hmany ⊢
  by_cases hnegative : i < 0
  · rw [if_pos (decide_eq_true hnegative)]
    omega
  · rw [if_neg (by simpa using hnegative)]
    omega

/-- It makes no difference that great whole numbers are carried as floats. -/
theorem clamped_truncate_carry {n m : Number} (h : n.carry = .ok m) :
    clamped m.truncate = clamped n.truncate := by
  unfold carry at h
  split at h
  · rename_i k hcarried
    cases h
    unfold carried? at hcarried
    split at hcarried
    · rename_i i
      split at hcarried
      · cases hcarried
        rfl
      · rename_i hlarge
        obtain ⟨x, hx, rfl⟩ := Option.map_eq_some_iff.mp hcarried
        simp only [float?, Option.ite_none_right_eq_some, Option.some.injEq] at hx
        obtain ⟨hfinite, rfl⟩ := hx
        dsimp only [truncate]
        exact clamped_truncate_ofInt (Nat.le_of_not_lt hlarge) hfinite
    · simp only [Option.ite_none_right_eq_some, Option.some.injEq] at hcarried
      rw [← hcarried.2]
  · contradiction

end Number

namespace Function

/-- How many digits the arguments after the number ask for: none without such an argument or by an empty
cell, and by a number its whole part. -/
inductive Keeps : List (Option Scalar) → Int → Prop where
  | default : Keeps [] 0
  | empty : Keeps [none] 0
  | number {n m : Number} : n.carry = .ok m → Keeps [some (.number n)] n.truncate

theorem applyScalar_round {n : Number} {rest : List (Option Scalar)} {digits : Int} (hn : n.Carried)
    (hrest : Keeps rest digits) (precision : Int) :
    applyScalar precision .round (some (.number n) :: rest) = n.round digits >>= Outcome.number := by
  have hnumber : Scalar.toNumber (some (.number n)) = .ok n := hn.carry_eq
  cases hrest with
  | default =>
    unfold applyScalar applyOne
    dsimp only
    rw [hnumber]
    rfl
  | empty =>
    unfold applyScalar applyTwo
    dsimp only
    rw [hnumber]
    rfl
  | @number k m hk =>
    have hdigits : Scalar.toNumber (some (.number k)) = .ok m := hk
    rw [← n.round_eq_of_clamped (Number.clamped_truncate_carry hk)]
    unfold applyScalar applyTwo
    dsimp only
    rw [hnumber, hdigits]
    rfl

/-- Rounding is exact: of the decimal that the text of a number denotes, it finds the nearest multiple of
the power of ten asked for, with halves away from zero, before it converts the result. -/
theorem exists_roundsTo_applyScalar {n : Number} {rest : List (Option Scalar)} {digits : Int}
    (hn : n.Carried) (hrest : Keeps rest digits) (precision : Int) : ∃ d q outcome,
      Number.Decimal.ofChars? n.chars = some d ∧
      (∃ (c : Nat) (e : Int), c < Number.tenTo 17 ∧ |d.value| = c * 10 ^ e) ∧
      Number.RoundsTo (10 ^ (-digits)) d.value q ∧ n.Converts d digits q outcome ∧
      applyScalar precision .round (some (.number n) :: rest) = outcome >>= Outcome.number := by
  have hfinite : n.isFinite := by
    cases n with
    | int i => rfl
    | float x => exact hn
  obtain ⟨d, hd, hvalue⟩ := Number.exists_ofChars?_chars hfinite
  obtain ⟨q, hrounds, hconverts⟩ := Number.exists_roundsTo_round hn.ranged digits
  refine ⟨d, q, n.round digits, hd, ⟨_, n.decimal.exponent, hn.ranged.coefficient_lt, ?_⟩, ?_,
    hconverts.congr hvalue, applyScalar_round hn hrest precision⟩
  · rw [hvalue, Number.Decimal.abs_value]
  · rwa [hvalue]

/-- The float nearest to `1.005` lies below it. The decimal that it is written as is halfway between two
hundredths, and goes to the one further from zero. -/
theorem exists_applyScalar_round_half : ∃ m : Number.Magnitude,
    let n := Number.float (.finite false m)
    1000 * m.units < 1005 * Number.Binary64.one ∧ n.decimal.value = 1005 / 1000 ∧
      n.Carried ∧ Keeps [some (.number (.int 2))] 2 ∧
      ∃ e : Number.Decimal, e.value = 101 / 100 ∧
        applyScalar 10 .round [some (.number n), some (.number (.int 2))] =
          Number.carryOn (.float e.toBinary) >>= Outcome.number := by
  let m : Number.Magnitude := ⟨4526117625507348, 1022, by decide, by decide, .inl (by decide)⟩
  have hdecimal : (Number.float (.finite false m)).decimal = ⟨false, 1005, -3⟩ := by decide +kernel
  have hvalue : (Number.float (.finite false m)).decimal.value = 1005 / 1000 := by
    rw [hdecimal]
    norm_num [Number.Decimal.value]
  have hcarried : (Number.float (.finite false m)).Carried := rfl
  have hkeeps : Keeps [some (.number (.int 2))] 2 := .number (n := .int 2) rfl
  have hnearest : Number.RoundsTo (10 ^ (-2 : ℤ)) (1005 / 1000) (101 / 100) := by
    have hmultiple : (101 / 100 : ℚ) = (101 : ℕ) * 10 ^ (-2 : ℤ) := by norm_num
    rw [hmultiple]
    exact .of_close (by norm_num) (by norm_num) (by norm_num) (by norm_num)
  obtain ⟨d, q, outcome, hd, -, hrounds, hconverts, happly⟩ :=
    exists_roundsTo_applyScalar hcarried hkeeps 10
  have hsame : d.value = 1005 / 1000 := by
    obtain ⟨d', hd', hvalue'⟩ := Number.exists_ofChars?_chars (n := .float (.finite false m)) rfl
    rw [Option.some.inj (hd.symm.trans hd'), hvalue', hvalue]
  rw [hsame] at hrounds
  have hq := hrounds.unique hnearest
  refine ⟨m, by decide +kernel, hvalue, hcarried, hkeeps, ?_⟩
  cases hconverts with
  | unchanged =>
    rw [hsame] at hq
    norm_num at hq
  | whole i hdigits => exact absurd hdigits (by decide)
  | float e hdigits => exact ⟨e, hq, happly⟩

end Function
end Spreadsheet
