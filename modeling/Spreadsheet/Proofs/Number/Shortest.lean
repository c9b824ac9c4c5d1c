import Mathlib.Algebra.Order.Floor.Div
import Spreadsheet.Number.Decimal
import Spreadsheet.Proofs.Number.Nearest

/-! The decimal that stands for a binary number in writing. It reads back as the same number: seventeen
digits are off by less than a relative `2 ^ -54`, so that one of the decimals that are tried does. -/
namespace Spreadsheet.Number

/-! ## Counts of digits -/

theorem digitCount_le_iff {n k : Nat} : digitCount n ≤ k ↔ n < tenTo k := by
  induction k generalizing n with
  | zero =>
    have hten : tenTo 0 = 1 := rfl
    unfold digitCount
    split <;> omega
  | succ k ih =>
    rw [digitCount, tenTo_succ]
    split
    · have := tenTo_pos k
      omega
    · rw [Nat.add_le_add_iff_right, ih, Nat.div_lt_iff_lt_mul (by omega)]

theorem digitCount_pos {n : Nat} (hn : 0 < n) : 0 < digitCount n := by
  rw [Nat.pos_iff_ne_zero, ne_eq, ← Nat.le_zero, digitCount_le_iff]
  exact Nat.not_lt.mpr hn

theorem tenTo_digitCount_le {n : Nat} (hn : 0 < n) : tenTo (digitCount n - 1) ≤ n := by
  have hcount := digitCount_pos hn
  by_contra hlt
  have := digitCount_le_iff.mpr (Nat.lt_of_not_le hlt)
  omega

theorem digitCount_mul_tenTo {n : Nat} (hn : n ≠ 0) (j : Nat) :
    digitCount (n * tenTo j) = digitCount n + j := by
  induction j with
  | zero =>
    rw [show tenTo 0 = 1 from rfl, Nat.mul_one, Nat.add_zero]
  | succ j ih =>
    have hpos : n * tenTo j * 10 ≠ 0 := by
      have := Nat.mul_pos (Nat.pos_of_ne_zero hn) (tenTo_pos j)
      omega
    rw [tenTo_succ, ← Nat.mul_assoc, digitCount, if_neg hpos, Nat.mul_div_cancel _ (by omega), ih]
    rfl

theorem dropZeros_spec (fuel n : Nat) : (dropZeros fuel n).1 * tenTo (dropZeros fuel n).2 = n := by
  induction fuel generalizing n with
  | zero => exact Nat.mul_one n
  | succ fuel ih =>
    unfold dropZeros
    split
    · dsimp only
      rw [tenTo_succ, ← Nat.mul_assoc, ih]
      omega
    · exact Nat.mul_one n

/-! ## Decimals of one value -/

namespace Decimal

/-- The same decimal with `j` zeros after its coefficient. -/
def padded (d : Decimal) (j : Nat) : Decimal := ⟨d.negative, d.coefficient * tenTo j, d.exponent - j⟩

theorem ratio_snd_pos (d : Decimal) : 0 < d.ratio.2 := by
  unfold ratio
  split
  · exact Nat.one_pos
  · exact tenTo_pos _

theorem ratio_padded (d : Decimal) (j : Nat) :
    (d.padded j).ratio.1 * d.ratio.2 = d.ratio.1 * (d.padded j).ratio.2 := by
  unfold padded ratio
  dsimp only
  by_cases hnew : 0 ≤ d.exponent - j
  · have hsum : d.exponent.toNat = j + (d.exponent - j).toNat := by omega
    rw [if_pos hnew, if_pos (by omega), hsum, tenTo_add]
    simp only [Nat.mul_one, Nat.mul_assoc]
  · rw [if_neg hnew]
    by_cases hold : 0 ≤ d.exponent
    · have hsum : d.exponent.toNat + (-(d.exponent - j)).toNat = j := by omega
      rw [if_pos hold]
      dsimp only
      rw [Nat.mul_one, Nat.mul_assoc, ← tenTo_add, hsum]
    · have hsum : (-(d.exponent - j)).toNat = j + (-d.exponent).toNat := by omega
      rw [if_neg hold, hsum, tenTo_add, Nat.mul_assoc]

theorem toBinary_padded (d : Decimal) (j : Nat) : (d.padded j).toBinary = d.toBinary := by
  have hzero : (d.padded j).coefficient = 0 ↔ d.coefficient = 0 := by
    have := tenTo_pos j
    simp only [padded, Nat.mul_eq_zero]
    omega
  unfold toBinary
  by_cases hc : d.coefficient = 0
  · rw [if_pos (.inl (hzero.mpr hc)), if_pos (.inl hc)]
    rfl
  · have hpoint : (d.padded j).pointPosition = d.pointPosition := by
      unfold pointPosition padded
      dsimp only
      rw [digitCount_mul_tenTo hc]
      omega
    have hratio := Binary64.ofRatio_congr d.negative (ratio_snd_pos (d.padded j)) (ratio_snd_pos d)
      (ratio_padded d j)
    simp only [hzero, hpoint]
    rw [show (d.padded j).negative = d.negative from rfl, hratio]

theorem normalized_negative (d : Decimal) : d.normalized.negative = d.negative := by
  unfold normalized
  split <;> rfl

theorem exponent_normalized (d : Decimal) (h : d.normalized.coefficient = 0) :
    d.normalized.exponent = 0 := by
  unfold normalized at h ⊢
  split
  · rfl
  · rename_i hc
    rw [if_neg hc] at h
    have hspec := dropZeros_spec (digitCount d.coefficient) d.coefficient
    rw [show (dropZeros (digitCount d.coefficient) d.coefficient).1 = 0 from h, Nat.zero_mul] at hspec
    exact absurd hspec.symm hc

theorem toBinary_normalized (d : Decimal) : d.normalized.toBinary = d.toBinary := by
  unfold normalized
  split
  · rename_i hc
    unfold toBinary
    rw [if_pos (.inl hc), if_pos (.inl hc)]
  · dsimp only
    generalize hdrop : dropZeros (digitCount d.coefficient) d.coefficient = result
    obtain ⟨c, k⟩ := result
    have hvalue := dropZeros_spec (digitCount d.coefficient) d.coefficient
    rw [hdrop] at hvalue
    dsimp only at hvalue ⊢
    rw [← toBinary_padded _ k]
    unfold padded
    dsimp only
    rw [hvalue, Int.add_sub_cancel]

/-- The point stands where the value says. -/
theorem pointPosition_le {d : Decimal} (hc : d.coefficient ≠ 0) {k : Nat}
    (h : d.ratio.1 < d.ratio.2 * tenTo k) : d.pointPosition ≤ k := by
  unfold pointPosition
  unfold ratio at h
  by_cases hexponent : 0 ≤ d.exponent
  · rw [if_pos hexponent] at h
    dsimp only at h
    rw [Nat.one_mul] at h
    have hcount := digitCount_le_iff.mpr h
    rw [digitCount_mul_tenTo hc] at hcount
    omega
  · rw [if_neg hexponent] at h
    dsimp only at h
    rw [← tenTo_add] at h
    have hcount := digitCount_le_iff.mpr h
    omega

end Decimal

/-! ## The decimals that are tried -/

namespace Magnitude

theorem units_pos {m : Magnitude} (hm : m.significand ≠ 0) : 0 < m.units :=
  Nat.mul_pos (Nat.pos_of_ne_zero hm) (twoTo_pos _)

/-- The largest number lies below `10 ^ 309 / 2`. -/
theorem units_lt (m : Magnitude) : 2 * m.units < Binary64.one * tenTo 309 := by
  have hlimit : 2 * (twoTo 53 * twoTo 2045) ≤ Binary64.one * tenTo 309 := by decide +kernel
  have hunits : m.units < twoTo 53 * twoTo 2045 :=
    Nat.mul_lt_mul_of_lt_of_le m.significand_lt (twoTo_le_twoTo m.shift_le) (twoTo_pos _)
  exact Nat.lt_of_lt_of_le (Nat.mul_lt_mul_of_pos_left hunits (Nat.succ_pos 1)) hlimit

/-- The leading digit stands at the exponent or above. -/
theorem decimalExponent_spec {m : Magnitude} (hm : m.significand ≠ 0) :
    (∃ k : Nat, m.decimalExponent = k ∧ Binary64.one * tenTo k ≤ m.units) ∨
      ∃ k : Nat, m.decimalExponent = -(k : Int) ∧ k ≤ 324 ∧ Binary64.one ≤ m.units * tenTo k := by
  have hunits := units_pos hm
  have hone : 0 < Binary64.one := twoTo_pos 1074
  have hbound : Binary64.one ≤ tenTo 324 := by decide +kernel
  unfold decimalExponent
  generalize m.units = units at hunits ⊢
  generalize Binary64.one = one at hone hbound ⊢
  split
  · rename_i hlarge
    have hquotient : 0 < units / one := Nat.div_pos hlarge hone
    have hcount := digitCount_pos hquotient
    refine .inl ⟨digitCount (units / one) - 1, by omega, ?_⟩
    calc one * tenTo (digitCount (units / one) - 1) ≤ one * (units / one) :=
          Nat.mul_le_mul_left _ (tenTo_digitCount_le hquotient)
      _ ≤ units := Nat.mul_div_le _ _
  · rw [← Nat.ceilDiv_eq_add_pred_div]
    have hceiling : one ≤ units * (one ⌈/⌉ units) := le_smul_ceilDiv hunits
    have hle : one ⌈/⌉ units ≤ one :=
      (ceilDiv_le_iff_le_mul hunits).mpr (Nat.le_mul_of_pos_left one hunits)
    generalize one ⌈/⌉ units = q at hceiling hle ⊢
    have hpos : 0 < q := Nat.pos_of_ne_zero fun hzero => by
      rw [hzero] at hceiling
      omega
    refine .inr ⟨digitCount (q - 1), rfl, ?_, hceiling.trans (Nat.mul_le_mul_left _ ?_)⟩
    · rw [digitCount_le_iff]
      omega
    · have := digitCount_le_iff.mp (Nat.le_refl (digitCount (q - 1)))
      omega

/-- Below the exponent of the leading digit there is room for all following ones. -/
theorem scaled_le {m : Magnitude} (hm : m.significand ≠ 0) (digits : Nat) :
    (m.scaled (m.decimalExponent - digits)).2 * tenTo digits ≤
      (m.scaled (m.decimalExponent - digits)).1 := by
  have hspec := decimalExponent_spec hm
  unfold scaled
  generalize Binary64.one = one at hspec ⊢
  rcases hspec with ⟨k, hk, hle⟩ | ⟨k, hk, -, hle⟩
  · rw [hk]
    split
    · have hsum : ((k : Int) - digits).toNat + digits = k := by omega
      dsimp only
      rw [Nat.mul_assoc, ← tenTo_add, hsum]
      exact hle
    · have hsum : k + (-((k : Int) - digits)).toNat = digits := by omega
      dsimp only
      calc one * tenTo digits = one * tenTo k * tenTo (-((k : Int) - digits)).toNat := by
            rw [Nat.mul_assoc, ← tenTo_add, hsum]
        _ ≤ m.units * tenTo (-((k : Int) - digits)).toNat := Nat.mul_le_mul_right _ hle
  · rw [hk]
    split
    · obtain rfl : k = 0 := by omega
      obtain rfl : digits = 0 := by omega
      simpa [show tenTo 0 = 1 from rfl] using hle
    · have hsum : (-(-(k : Int) - digits)).toNat = k + digits := by omega
      dsimp only
      rw [hsum, tenTo_add, ← Nat.mul_assoc]
      exact Nat.mul_le_mul_right _ hle

theorem ratio_scaled (m : Magnitude) (c : Nat) (exponent : Int) :
    (Decimal.mk false c exponent).ratio.1 * Binary64.one = c * (m.scaled exponent).2 ∧
      (Decimal.mk false c exponent).ratio.2 * m.units = (m.scaled exponent).1 := by
  unfold Decimal.ratio scaled
  generalize Binary64.one = one
  dsimp only
  split
  · dsimp only
    rw [Nat.mul_assoc, Nat.mul_comm one, Nat.one_mul]
    exact ⟨rfl, rfl⟩
  · exact ⟨rfl, Nat.mul_comm _ _⟩

theorem scaled_snd_pos (m : Magnitude) (exponent : Int) : 0 < (m.scaled exponent).2 := by
  have hone : 0 < Binary64.one := twoTo_pos 1074
  unfold scaled
  generalize Binary64.one = one at hone ⊢
  split
  · exact Nat.mul_pos hone (tenTo_pos _)
  · exact hone

/-- A decimal reads as the magnitude that it is nearest to, if it is neither too small nor too great to
be looked at. -/
theorem toBinary_of_nearest? {m : Magnitude} {d : Decimal} (hsign : d.negative = false)
    (hzero : d.coefficient ≠ 0) (hlow : -324 < d.pointPosition) (hhigh : d.pointPosition ≤ 309)
    (h : nearest? (d.ratio.1 * Binary64.one) d.ratio.2 = some m) : d.toBinary = .finite false m := by
  unfold Decimal.toBinary
  rw [if_neg (by omega), if_neg (by omega), hsign]
  exact Binary64.ofUnits_of_nearest? false h

/-- The point of a decimal of at most twice a magnitude stands where it is looked at. -/
theorem pointPosition_le_of_ratio {m : Magnitude} {d : Decimal} (hzero : d.coefficient ≠ 0)
    (h : d.ratio.1 * Binary64.one ≤ 2 * (d.ratio.2 * m.units)) : d.pointPosition ≤ 309 := by
  apply Decimal.pointPosition_le hzero (k := 309)
  have hbig := Nat.mul_lt_mul_of_pos_left m.units_lt d.ratio_snd_pos
  generalize Binary64.one = one at h hbig
  apply Nat.lt_of_mul_lt_mul_right (a := one)
  calc d.ratio.1 * one ≤ 2 * (d.ratio.2 * m.units) := h
    _ = d.ratio.2 * (2 * m.units) := Nat.mul_left_comm _ _ _
    _ < d.ratio.2 * (one * tenTo 309) := hbig
    _ = d.ratio.2 * tenTo 309 * one := by rw [Nat.mul_assoc, Nat.mul_comm one]

/-- The nearest decimal of seventeen digits reads back. -/
theorem toBinary_seventeen {m : Magnitude} (hm : m.significand ≠ 0) :
    (Decimal.mk false (roundHalfEven (m.scaled (m.decimalExponent - 16)).1
      (m.scaled (m.decimalExponent - 16)).2) (m.decimalExponent - 16)).toBinary = .finite false m := by
  have hroom := scaled_le hm 16
  obtain ⟨hnumerator, hdenominator⟩ := m.ratio_scaled (roundHalfEven
    (m.scaled (m.decimalExponent - 16)).1 (m.scaled (m.decimalExponent - 16)).2)
      (m.decimalExponent - 16)
  have hpos := m.scaled_snd_pos (m.decimalExponent - 16)
  obtain ⟨hbelow, habove⟩ :=
    roundHalfEven_close (n := (m.scaled (m.decimalExponent - 16)).1) hpos
  generalize roundHalfEven (m.scaled (m.decimalExponent - 16)).1
    (m.scaled (m.decimalExponent - 16)).2 = near at *
  generalize (m.scaled (m.decimalExponent - 16)).1 = n at *
  generalize (m.scaled (m.decimalExponent - 16)).2 = d at *
  have h16 : tenTo 16 = 10000000000000000 := rfl
  have h54 : twoTo 54 = 18014398509481984 := rfl
  rw [h16] at hroom
  have hnear : tenTo 16 ≤ near := by
    rw [h16]
    by_contra hless
    have := Nat.mul_le_mul_right d (Nat.le_of_lt_succ (Nat.lt_of_not_le hless) :
      near ≤ 9999999999999999)
    omega
  have hnonzero : near ≠ 0 := by omega
  have hcount : 17 ≤ digitCount near := by
    by_contra hless
    have := digitCount_le_iff.mp (Nat.le_of_lt_succ (Nat.lt_of_not_le hless))
    omega
  refine toBinary_of_nearest? rfl hnonzero ?_ (pointPosition_le_of_ratio (m := m) hnonzero ?_)
    (nearest?_of_close m ?_ ?_)
  · unfold Decimal.pointPosition
    dsimp only
    rcases decimalExponent_spec hm with ⟨k, hk, -⟩ | ⟨k, hk, hk324, -⟩
    · omega
    · omega
  · rw [hnumerator, hdenominator]
    omega
  · rw [hdenominator, hnumerator, h54]
    omega
  · rw [hdenominator, hnumerator, h54]
    omega

/-- The shortest decimal is a neighbour that reads back, or the nearest decimal of seventeen digits. -/
theorem shortest_cases (m : Magnitude) :
    (∃ k : Nat, k < 17 ∧ ∃ d ∈ m.neighbours (m.decimalExponent - k),
      d.toBinary = .finite false m ∧ m.shortest = d.normalized) ∨
    m.shortest = (Decimal.mk false (roundHalfEven (m.scaled (m.decimalExponent - 16)).1
      (m.scaled (m.decimalExponent - 16)).2) (m.decimalExponent - 16)).normalized := by
  unfold shortest
  dsimp only
  split
  · rename_i d hfound
    obtain ⟨digits, hdigits, hreads⟩ := List.exists_of_findSome?_eq_some hfound
    obtain ⟨k, hk, rfl⟩ := List.mem_map.mp hdigits
    have hexponent : m.decimalExponent - (k + 1 : Nat) + 1 = m.decimalExponent - k := by omega
    unfold readsBackWith? at hreads
    rw [hexponent] at hreads
    have hback := List.find?_some hreads
    exact .inl ⟨k, List.mem_range.mp hk, d, List.mem_of_find?_eq_some hreads,
      of_decide_eq_true hback, rfl⟩
  · exact .inr rfl

/-- The shortest decimal of a magnitude reads back as the magnitude. -/
theorem toBinary_shortest {m : Magnitude} (hm : m.significand ≠ 0) :
    m.shortest.toBinary = .finite false m := by
  obtain ⟨_, -, d, -, hback, heq⟩ | heq := m.shortest_cases
  · rw [heq, Decimal.toBinary_normalized, hback]
  · rw [heq, Decimal.toBinary_normalized]
    exact toBinary_seventeen hm

theorem shortest_negative (m : Magnitude) : m.shortest.negative = false := by
  obtain ⟨_, -, d, hmem, -, heq⟩ | heq := m.shortest_cases
  · rw [heq, Decimal.normalized_negative]
    simp only [neighbours, List.mem_cons, List.not_mem_nil, or_false] at hmem
    rcases hmem with rfl | rfl <;> rfl
  · rw [heq, Decimal.normalized_negative]

theorem exponent_shortest (m : Magnitude) (h : m.shortest.coefficient = 0) :
    m.shortest.exponent = 0 := by
  obtain ⟨_, -, d, -, -, heq⟩ | heq := m.shortest_cases
  all_goals
    rw [heq] at h ⊢
    exact Decimal.exponent_normalized _ h

end Magnitude

/-- A number without a sign reads back from its shortest decimal. -/
theorem Binary64.toBinary_shortest (m : Magnitude) :
    (Binary64.finite false m).shortest.toBinary = .finite false m := by
  unfold shortest
  dsimp only
  split
  · rename_i hm
    obtain ⟨significand, shift, hlt, hle, hnormal⟩ := m
    dsimp only at hm
    subst hm
    obtain rfl : shift = 0 := hnormal.resolve_left (by decide)
    rfl
  · rename_i hm
    have hplain : { m.shortest with negative := false } = m.shortest := by
      rw [← m.shortest_negative]
    rw [hplain, Magnitude.toBinary_shortest hm]

theorem Binary64.exponent_shortest (m : Magnitude)
    (h : (Binary64.finite false m).shortest.coefficient = 0) :
    (Binary64.finite false m).shortest.exponent = 0 := by
  unfold shortest at h ⊢
  by_cases hm : m.significand = 0
  · simp only [if_pos hm]
  · simp only [if_neg hm] at h ⊢
    exact m.exponent_shortest h

theorem Binary64.ofUnits_signed {s t : Bool} {n d : Nat} {m : Magnitude}
    (h : ofUnits s n d = .finite t m) (negative : Bool) : ofUnits negative n d = .finite negative m := by
  unfold ofUnits at h ⊢
  split at h
  · cases h
    rfl
  · contradiction

/-- The sign of a decimal has no part in the magnitude that it reads as. -/
theorem Decimal.toBinary_signed {d : Decimal} {s : Bool} {m : Magnitude} (h : d.toBinary = .finite s m)
    (negative : Bool) : ({ d with negative } : Decimal).toBinary = .finite negative m := by
  have hpoint : ({ d with negative } : Decimal).pointPosition = d.pointPosition := rfl
  have hratio : ({ d with negative } : Decimal).ratio = d.ratio := rfl
  unfold toBinary at h ⊢
  rw [hpoint, hratio]
  dsimp only
  split at h
  · rename_i hzero
    rw [if_pos hzero]
    rw [Binary64.zero, Binary64.finite.injEq] at h
    rw [Binary64.zero, h.2]
  rename_i hzero
  rw [if_neg hzero]
  split at h
  · contradiction
  · rename_i hfar
    rw [if_neg hfar]
    exact Binary64.ofUnits_signed h negative

end Spreadsheet.Number
