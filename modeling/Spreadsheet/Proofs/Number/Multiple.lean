import Mathlib.Algebra.Order.Field.Power
import Mathlib.Algebra.Order.Ring.Rat
import Mathlib.Tactic.FieldSimp
import Mathlib.Tactic.Linarith
import Mathlib.Tactic.NormNum
import Mathlib.Tactic.Positivity
import Mathlib.Tactic.Ring
import Spreadsheet.Proofs.Number.Shortest

/-! Decimals by their values, and rounding to a multiple of a unit. Which multiple a value rounds to is
said without regard to how it is computed: it is the nearest one, and of two that are equally near the one
further from zero. -/
namespace Spreadsheet.Number

/-- The multiple of a unit that is nearest to a value; a half goes away from zero. -/
structure RoundsTo (unit q r : ℚ) : Prop where
  multiple : ∃ k : ℤ, r = k * unit
  nearest (k : ℤ) : |q - r| ≤ |q - k * unit|
  away (k : ℤ) : |q - r| = |q - k * unit| → |k * unit| ≤ |r|

namespace RoundsTo

variable {unit q r s : ℚ}

/-- There is no other such multiple. -/
theorem unique (h : RoundsTo unit q r) (h' : RoundsTo unit q s) : r = s := by
  have hzero := h.nearest 0
  obtain ⟨j, rfl⟩ := h.multiple
  obtain ⟨k, rfl⟩ := h'.multiple
  have hdistance := le_antisymm (h.nearest k) (h'.nearest j)
  have habs := le_antisymm (h'.away j hdistance.symm) (h.away k hdistance)
  rcases abs_eq_abs.mp habs with hsame | hopposite
  · exact hsame
  · -- what is equally far from two opposite numbers is zero, or both are
    rw [hopposite] at hzero hdistance ⊢
    rw [Int.cast_zero, zero_mul, sub_zero] at hzero
    generalize (k : ℚ) * unit = s at hzero hdistance ⊢
    rcases abs_eq_abs.mp hdistance with hs | hq
    · linarith
    · obtain rfl : q = 0 := by linarith
      rw [abs_zero, zero_sub, neg_neg] at hzero
      rw [abs_nonpos_iff.mp hzero, neg_zero]

theorem neg (h : RoundsTo unit q r) : RoundsTo unit (-q) (-r) := by
  have hleft : |-q - -r| = |q - r| := by rw [← abs_neg, neg_sub_neg, neg_sub]
  have hright (k : ℤ) : |-q - k * unit| = |q - (-k : ℤ) * unit| := by
    rw [← abs_neg, Int.cast_neg]
    ring_nf
  constructor
  · obtain ⟨k, rfl⟩ := h.multiple
    exact ⟨-k, by push_cast; ring⟩
  · intro k
    rw [hleft, hright]
    exact h.nearest (-k)
  · intro k hk
    rw [hleft, hright] at hk
    have haway := h.away (-k) hk
    rwa [Int.cast_neg, neg_mul, abs_neg, ← abs_neg r] at haway

/-- A multiple needs no rounding. -/
theorem of_multiple (k : ℤ) : RoundsTo unit (k * unit) (k * unit) := by
  refine ⟨⟨k, rfl⟩, fun j => ?_, fun j hj => ?_⟩
  · rw [sub_self, abs_zero]
    exact abs_nonneg _
  · rw [sub_self, abs_zero, eq_comm, abs_eq_zero, sub_eq_zero] at hj
    rw [hj]

/-- From half a unit below a multiple on, and less than half a unit above it. -/
theorem of_close {c : ℕ} (hunit : 0 < unit) (hq : 0 ≤ q) (hlow : (2 * c - 1) * unit ≤ 2 * q)
    (hhigh : 2 * q < (2 * c + 1) * unit) : RoundsTo unit q (c * unit) := by
  have hhalf : |q - c * unit| ≤ unit / 2 := abs_le.mpr ⟨by linarith, by linarith⟩
  have habove : ∀ k : ℤ, (c : ℤ) < k → unit / 2 < |q - k * unit| := by
    intro k hk
    have hnext : ((c : ℚ) + 1) * unit ≤ k * unit :=
      mul_le_mul_of_nonneg_right (by exact_mod_cast hk) hunit.le
    have hdistance := neg_le_abs (q - k * unit)
    linarith
  refine ⟨⟨c, by push_cast; rfl⟩, fun k => ?_, fun k hk => ?_⟩
  · rcases lt_trichotomy k c with hless | rfl | hmore
    · have hprevious : ((k : ℚ) + 1) * unit ≤ c * unit :=
        mul_le_mul_of_nonneg_right (by exact_mod_cast hless) hunit.le
      have hdistance := le_abs_self (q - k * unit)
      linarith
    · rw [Int.cast_natCast]
    · exact hhalf.trans (habove k hmore).le
  · have hle : (k : ℚ) * unit ≤ c * unit := by
      apply mul_le_mul_of_nonneg_right _ hunit.le
      by_contra hmore
      have hfar := habove k (by exact_mod_cast not_le.mp hmore)
      linarith
    have hnonneg : (0 : ℚ) ≤ c * unit := by positivity
    have hdistance : |q - c * unit| ≤ q + c * unit := abs_le.mpr ⟨by linarith, by linarith⟩
    have hbelow := le_abs_self (q - k * unit)
    rw [abs_of_nonneg hnonneg, abs_le]
    exact ⟨by linarith, hle⟩

/-- What is less than half a unit rounds to nothing. -/
theorem of_small (h : 2 * |q| < unit) : RoundsTo unit q 0 := by
  have hunit : 0 < unit := lt_of_le_of_lt (by positivity) h
  have hclose : ∀ {p : ℚ}, 0 ≤ p → 2 * p < unit → RoundsTo unit p 0 := by
    intro p hp hless
    have := of_close (c := 0) hunit hp (by push_cast; linarith) (by push_cast; linarith)
    rwa [Nat.cast_zero, zero_mul] at this
  rcases le_total 0 q with hpos | hneg
  · rw [abs_of_nonneg hpos] at h
    exact hclose hpos h
  · rw [abs_of_nonpos hneg] at h
    simpa using (hclose (neg_nonneg.mpr hneg) h).neg

end RoundsTo

/-! ## The values of decimals -/

theorem tenTo_eq_zpow (k : Nat) : ((tenTo k : ℕ) : ℚ) = 10 ^ (k : ℤ) := by
  rw [zpow_natCast]
  exact Nat.cast_pow 10 k

theorem tenTo_toNat {e : ℤ} (h : 0 ≤ e) : ((tenTo e.toNat : ℕ) : ℚ) = 10 ^ e := by
  rw [tenTo_eq_zpow, Int.toNat_of_nonneg h]

theorem ten_zpow_add (e f : ℤ) : (10 : ℚ) ^ (e + f) = 10 ^ e * 10 ^ f := zpow_add₀ (by norm_num) e f

theorem ten_zpow_pos (e : ℤ) : (0 : ℚ) < 10 ^ e := zpow_pos (by norm_num) e

namespace Decimal

/-- The exact value. -/
def value (d : Decimal) : ℚ :=
  if d.negative then -(d.coefficient * 10 ^ d.exponent) else d.coefficient * 10 ^ d.exponent

variable {d : Decimal}

theorem abs_value (d : Decimal) : |d.value| = d.coefficient * 10 ^ d.exponent := by
  have hnonneg : (0 : ℚ) ≤ d.coefficient * 10 ^ d.exponent :=
    mul_nonneg (Nat.cast_nonneg _) (ten_zpow_pos _).le
  unfold value
  split
  · rw [abs_neg, abs_of_nonneg hnonneg]
  · rw [abs_of_nonneg hnonneg]

theorem value_padded (d : Decimal) (j : Nat) : (d.padded j).value = d.value := by
  have hmagnitude : ((d.coefficient * tenTo j : ℕ) : ℚ) * 10 ^ (d.exponent - j) =
      d.coefficient * 10 ^ d.exponent := by
    rw [Nat.cast_mul, tenTo_eq_zpow, mul_assoc, ← ten_zpow_add, add_sub_cancel]
  unfold value padded
  rw [hmagnitude]

/-- The digits reach down to the exponent. -/
theorem exists_value_eq {e : ℤ} (h : d.coefficient ≠ 0 → e ≤ d.exponent) :
    ∃ k : ℤ, d.value = k * 10 ^ e := by
  have hmagnitude : ∃ k : ℤ, (d.coefficient : ℚ) * 10 ^ d.exponent = k * 10 ^ e := by
    by_cases hzero : d.coefficient = 0
    · exact ⟨0, by simp [hzero]⟩
    · refine ⟨d.coefficient * tenTo (d.exponent - e).toNat, ?_⟩
      push_cast
      rw [tenTo_toNat (by have := h hzero; omega), mul_assoc, ← ten_zpow_add, sub_add_cancel]
  obtain ⟨k, hk⟩ := hmagnitude
  unfold value
  rw [hk]
  split
  · exact ⟨-k, by push_cast; ring⟩
  · exact ⟨k, rfl⟩

theorem roundsTo_self {e : ℤ} (h : d.coefficient ≠ 0 → e ≤ d.exponent) :
    RoundsTo (10 ^ e) d.value d.value := by
  obtain ⟨k, hk⟩ := exists_value_eq h
  rw [hk]
  exact .of_multiple k

/-- No value reaches the power of ten at its point. -/
theorem abs_value_lt (d : Decimal) : |d.value| < 10 ^ d.pointPosition := by
  have hcount : d.coefficient < tenTo (digitCount d.coefficient) := digitCount_le_iff.mp le_rfl
  unfold pointPosition
  rw [abs_value, ten_zpow_add, ← tenTo_eq_zpow]
  exact mul_lt_mul_of_pos_right (by exact_mod_cast hcount) (ten_zpow_pos _)

/-- Rounding to a multiple of a power of ten finds the nearest one, with halves away from zero. -/
theorem roundsTo_roundTo (d : Decimal) (e : ℤ) : RoundsTo (10 ^ e) d.value (d.roundTo e).value := by
  have hmagnitude : RoundsTo (10 ^ e) (d.coefficient * 10 ^ d.exponent)
      ((d.roundTo e).coefficient * 10 ^ e) := by
    unfold roundTo
    dsimp only
    split
    · rename_i hshift
      have hvalue : (d.coefficient : ℚ) * 10 ^ d.exponent =
          (d.coefficient * tenTo (d.exponent - e).toNat : ℕ) * 10 ^ e := by
        rw [Nat.cast_mul, tenTo_toNat hshift, mul_assoc, ← ten_zpow_add, sub_add_cancel]
      rw [hvalue]
      exact .of_multiple (d.coefficient * tenTo (d.exponent - e).toNat : ℕ)
    · rename_i hshift
      have hpower : (10 : ℚ) ^ e = tenTo (-(d.exponent - e)).toNat * 10 ^ d.exponent := by
        rw [tenTo_toNat (by omega), ← ten_zpow_add]
        congr 1
        omega
      have hten := tenTo_pos (-(d.exponent - e)).toNat
      generalize tenTo (-(d.exponent - e)).toNat = t at hpower hten ⊢
      have hpos := ten_zpow_pos d.exponent
      have hlow := Nat.div_mul_le_self (2 * d.coefficient + t) (2 * t)
      have hhigh := Nat.lt_div_mul_add (a := 2 * d.coefficient + t) (b := 2 * t) (by omega)
      rw [← roundHalfUp] at hlow hhigh
      refine .of_close (ten_zpow_pos e) (by positivity) ?_ ?_
      · have hcast : ((roundHalfUp d.coefficient t * (2 * t) : ℕ) : ℚ) ≤
            (2 * d.coefficient + t : ℕ) := by exact_mod_cast hlow
        push_cast at hcast
        rw [hpower, ← mul_assoc, ← mul_assoc]
        exact mul_le_mul_of_nonneg_right (by linarith) hpos.le
      · have hcast : ((2 * d.coefficient + t : ℕ) : ℚ) <
            (roundHalfUp d.coefficient t * (2 * t) + 2 * t : ℕ) := by exact_mod_cast hhigh
        push_cast at hcast
        rw [hpower, ← mul_assoc, ← mul_assoc]
        exact mul_lt_mul_of_pos_right (by linarith) hpos
  unfold value
  rw [show (d.roundTo e).negative = d.negative from rfl, show (d.roundTo e).exponent = e from rfl]
  split
  · exact hmagnitude.neg
  · exact hmagnitude

/-- Without digits behind the point nothing is cut off. -/
theorem truncate_eq_value (h : 0 ≤ d.exponent) : (d.truncate : ℚ) = d.value := by
  unfold truncate ratio value
  rw [if_pos h]
  dsimp only
  rw [Nat.div_one]
  split
  · push_cast
    rw [tenTo_toNat h]
  · push_cast
    rw [tenTo_toNat h]

end Decimal
end Spreadsheet.Number
