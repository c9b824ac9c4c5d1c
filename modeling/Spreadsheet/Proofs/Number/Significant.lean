import Spreadsheet.Proofs.Number.Bounded
import Spreadsheet.Proofs.Number.Multiple
import Spreadsheet.Proofs.Number.Written

/-! The decimal that a number's text denotes. Of a number that calculations carry it has at most seventeen
significant digits, and its point stands where floating point has numbers. -/
namespace Spreadsheet.Number

/-! ## Seventeen digits -/

theorem dropZeros_le (fuel n : Nat) : (dropZeros fuel n).1 ≤ n := by
  have hspec := dropZeros_spec fuel n
  conv_rhs => rw [← hspec]
  exact Nat.le_mul_of_pos_right _ (tenTo_pos _)

theorem Decimal.coefficient_normalized_lt {d : Decimal} {k : Nat}
    (h : d.coefficient ≤ tenTo (k + 1)) : d.normalized.coefficient < tenTo (k + 1) := by
  have hten := tenTo_pos (k + 1)
  unfold normalized
  by_cases hzero : d.coefficient = 0
  · rw [if_pos hzero]
    dsimp only
    omega
  · rw [if_neg hzero]
    dsimp only
    have hle := dropZeros_le (digitCount d.coefficient) d.coefficient
    rcases Nat.lt_or_eq_of_le h with hless | hpower
    · exact Nat.lt_of_le_of_lt hle hless
    · -- the power of ten itself ends in a zero, which is dropped
      obtain ⟨fuel, hfuel⟩ := Nat.exists_eq_succ_of_ne_zero
        (digitCount_pos (Nat.pos_of_ne_zero hzero)).ne'
      have htail : d.coefficient % 10 = 0 := by
        rw [hpower, tenTo_succ, Nat.mul_mod_left]
      rw [hfuel, dropZeros, if_pos htail, ← hpower]
      dsimp only
      have := dropZeros_le fuel (d.coefficient / 10)
      omega

namespace Magnitude

variable {m : Magnitude}

/-- No digit stands above the exponent of the leading one. -/
theorem decimalExponent_lt (hm : m.significand ≠ 0) :
    (∃ k : Nat, m.decimalExponent = k ∧ m.units < Binary64.one * tenTo (k + 1)) ∨
      ∃ k : Nat, m.decimalExponent = -(k + 1 : Int) ∧ m.units * tenTo k < Binary64.one := by
  have hunits := units_pos hm
  have hone : 0 < Binary64.one := twoTo_pos 1074
  unfold decimalExponent
  generalize m.units = units at hunits ⊢
  generalize Binary64.one = one at hone ⊢
  split
  · rename_i hlarge
    have hcount := digitCount_pos (Nat.div_pos hlarge hone)
    refine .inl ⟨digitCount (units / one) - 1, by omega, ?_⟩
    rw [Nat.sub_add_cancel hcount, Nat.mul_comm, ← Nat.div_lt_iff_lt_mul hone]
    exact digitCount_le_iff.mp le_rfl
  · rename_i hsmall
    rw [← Nat.ceilDiv_eq_add_pred_div]
    have hmany : 1 < one ⌈/⌉ units := by
      rw [← Nat.not_le, ceilDiv_le_iff_le_mul hunits, Nat.mul_one]
      exact hsmall
    have hbelow : units * (one ⌈/⌉ units - 1) < one := by
      rw [← Nat.not_le, ← ceilDiv_le_iff_le_mul hunits]
      omega
    generalize one ⌈/⌉ units = q at hmany hbelow ⊢
    have hcount := digitCount_pos (n := q - 1) (by omega)
    refine .inr ⟨digitCount (q - 1) - 1, by omega, Nat.lt_of_le_of_lt ?_ hbelow⟩
    exact Nat.mul_le_mul_left _ (tenTo_digitCount_le (by omega))

/-- Down to a digit there is no room for more than the digits above it. -/
theorem scaled_lt (hm : m.significand ≠ 0) (digits : Nat) :
    (m.scaled (m.decimalExponent - digits)).1 <
      (m.scaled (m.decimalExponent - digits)).2 * tenTo (digits + 1) := by
  have hspec := decimalExponent_lt hm
  unfold scaled
  generalize Binary64.one = one at hspec ⊢
  rcases hspec with ⟨k, hk, hlt⟩ | ⟨k, hk, hlt⟩
  · rw [hk]
    split
    · have hsum : ((k : Int) - digits).toNat + (digits + 1) = k + 1 := by omega
      dsimp only
      rwa [Nat.mul_assoc, ← tenTo_add, hsum]
    · have hsum : k + 1 + (-((k : Int) - digits)).toNat = digits + 1 := by omega
      dsimp only
      rw [← hsum, tenTo_add, ← Nat.mul_assoc]
      exact Nat.mul_lt_mul_of_pos_right hlt (tenTo_pos _)
  · rw [hk]
    have hsum : (-(-((k : Int) + 1) - digits)).toNat = k + (digits + 1) := by omega
    rw [if_neg (by omega)]
    dsimp only
    rw [hsum, tenTo_add, ← Nat.mul_assoc]
    exact Nat.mul_lt_mul_of_pos_right hlt (tenTo_pos _)

theorem roundHalfEven_scaled_le (hm : m.significand ≠ 0) (digits : Nat) :
    roundHalfEven (m.scaled (m.decimalExponent - digits)).1
      (m.scaled (m.decimalExponent - digits)).2 ≤ tenTo (digits + 1) := by
  apply roundHalfEven_le (m.scaled_snd_pos _)
  rw [Nat.mul_comm]
  exact (scaled_lt hm digits).le

theorem coefficient_neighbours_le (hm : m.significand ≠ 0) {digits : Nat} {d : Decimal}
    (h : d ∈ m.neighbours (m.decimalExponent - digits)) : d.coefficient ≤ tenTo (digits + 1) := by
  have hnear := roundHalfEven_scaled_le hm digits
  have hlow : (m.scaled (m.decimalExponent - digits)).1 / (m.scaled (m.decimalExponent - digits)).2 <
      tenTo (digits + 1) := by
    rw [Nat.div_lt_iff_lt_mul (m.scaled_snd_pos _), Nat.mul_comm]
    exact scaled_lt hm digits
  unfold neighbours at h
  generalize m.scaled (m.decimalExponent - digits) = quotient at hnear hlow h
  simp only [List.mem_cons, List.not_mem_nil, or_false] at h
  rcases h with rfl | rfl
  · exact hnear
  · dsimp only
    split <;> omega

theorem coefficient_shortest_lt (hm : m.significand ≠ 0) : m.shortest.coefficient < tenTo 17 := by
  obtain ⟨k, hk, d, hmem, -, heq⟩ | heq := m.shortest_cases
  · rw [heq]
    have hle := coefficient_neighbours_le hm hmem
    have hpower : tenTo (k + 1) ≤ tenTo 17 := Nat.pow_le_pow_right (by decide) (by omega)
    exact Decimal.coefficient_normalized_lt (hle.trans hpower)
  · have hle := roundHalfEven_scaled_le hm 16
    rw [show ((16 : Nat) : Int) = 16 from rfl] at hle
    rw [heq]
    generalize m.scaled (m.decimalExponent - 16) = quotient at hle ⊢
    exact Decimal.coefficient_normalized_lt hle

end Magnitude

/-! ## The range -/

/-- At most seventeen digits, and a point where floating point has numbers. -/
structure Decimal.Ranged (d : Decimal) : Prop where
  coefficient_lt : d.coefficient < tenTo 17
  lt_pointPosition : d.coefficient ≠ 0 → -324 < d.pointPosition
  pointPosition_le : d.coefficient ≠ 0 → d.pointPosition ≤ 309

namespace Decimal.Ranged

variable {d : Decimal}

theorem zero (negative : Bool) (e : Int) : Ranged ⟨negative, 0, e⟩ :=
  ⟨tenTo_pos 17, fun h => absurd rfl h, fun h => absurd rfl h⟩

theorem signed (h : d.Ranged) (negative : Bool) : Ranged { d with negative } :=
  ⟨h.coefficient_lt, h.lt_pointPosition, h.pointPosition_le⟩

theorem digitCount_le (h : d.Ranged) : digitCount d.coefficient ≤ 17 :=
  digitCount_le_iff.mpr h.coefficient_lt

/-- Its digits end at least there. -/
theorem le_exponent (h : d.Ranged) (hzero : d.coefficient ≠ 0) : -340 ≤ d.exponent := by
  have hpoint := h.lt_pointPosition hzero
  have hcount := h.digitCount_le
  unfold pointPosition at hpoint
  omega

theorem abs_value_lt (h : d.Ranged) : 2 * |d.value| < 10 ^ (400 : ℤ) := by
  by_cases hzero : d.coefficient = 0
  · rw [Decimal.abs_value, hzero, Nat.cast_zero, zero_mul, mul_zero]
    exact ten_zpow_pos 400
  · have hlt := d.abs_value_lt
    have hpower : (10 : ℚ) ^ d.pointPosition ≤ 10 ^ (309 : ℤ) :=
      zpow_le_zpow_right₀ (by norm_num) (h.pointPosition_le hzero)
    have hfactor : (2 : ℚ) ≤ 10 ^ (91 : ℤ) := by norm_num
    calc 2 * |d.value| < 2 * 10 ^ (309 : ℤ) := by linarith
      _ ≤ 10 ^ (91 : ℤ) * 10 ^ (309 : ℤ) :=
          mul_le_mul_of_nonneg_right hfactor (ten_zpow_pos 309).le
      _ = 10 ^ (400 : ℤ) := (ten_zpow_add 91 309).symm

end Decimal.Ranged

/-- What reads as a number other than zero has its point in the range. -/
theorem Decimal.pointPosition_of_toBinary {d : Decimal} {s : Bool} {m : Magnitude}
    (hm : m.significand ≠ 0) (h : d.toBinary = .finite s m) :
    -324 < d.pointPosition ∧ d.pointPosition ≤ 309 := by
  unfold toBinary at h
  split at h
  · cases h
    exact absurd rfl hm
  · split at h
    · contradiction
    · omega

theorem Binary64.ranged_shortest (x : Binary64) : x.shortest.Ranged := by
  unfold shortest
  split
  · rename_i s m
    split
    · exact .zero _ _
    · rename_i hm
      obtain ⟨hlow, hhigh⟩ :=
        Decimal.pointPosition_of_toBinary hm (Magnitude.toBinary_shortest hm)
      have hranged : m.shortest.Ranged :=
        ⟨Magnitude.coefficient_shortest_lt hm, fun _ => hlow, fun _ => hhigh⟩
      exact hranged.signed s
  · exact .zero _ _

theorem Carried.ranged {n : Number} (h : n.Carried) : n.decimal.Ranged := by
  cases n with
  | int i =>
    have hlt : i.natAbs < tenTo 17 := Nat.lt_trans h (by decide)
    have hcount := digitCount_le_iff.mpr hlt
    refine ⟨hlt, fun _ => ?_, fun _ => ?_⟩
    · show -324 < (digitCount i.natAbs : Int) + 0
      omega
    · show (digitCount i.natAbs : Int) + 0 ≤ 309
      omega
  | float x => exact x.ranged_shortest

/-! ## The text -/

namespace Decimal

theorem ofChars?_minus {cs : List Char} (h : splitSign cs = (false, cs)) :
    ofChars? ('-' :: cs) = (ofChars? cs).map fun d => { d with negative := true } := by
  have hminus : splitSign ('-' :: cs) = (true, cs) := rfl
  unfold ofChars?
  rw [hminus, h]
  dsimp only
  split
  · rw [apply_ite (Option.map _), Option.map_map]
    rfl
  · rw [apply_ite (Option.map _), Option.map_map]
    rfl

end Decimal

theorem Numeral.ofChars?_signed (k : Numeral) (negative : Bool) :
    Decimal.ofChars? (if negative then '-' :: k.chars else k.chars) =
      some { k.decimal with negative } := by
  cases negative with
  | false =>
    rw [if_neg Bool.false_ne_true, k.ofChars?_chars]
    rfl
  | true =>
    rw [if_pos rfl, Decimal.ofChars?_minus k.splitSign_chars, k.ofChars?_chars]
    rfl

/-- The text of a finite number is a numeral behind its sign. -/
theorem exists_numeral {n : Number} (h : n.isFinite) : ∃ k : Numeral,
    n.chars = (if n.decimal.negative then '-' :: k.chars else k.chars) ∧
      ∃ j, k.decimal = { n.decimal with negative := false }.padded j := by
  cases n with
  | int i =>
    refine ⟨.ofNat i.natAbs, ?_, 0, ?_⟩
    · simp only [chars, decimal, toList_toString_int, Numeral.chars_ofNat, decide_eq_true_eq]
    · rw [Decimal.padded_zero]
      simp [Numeral.decimal, Numeral.ofNat, decimal, numeral_natChars]
  | float x =>
    obtain ⟨s, m, rfl⟩ := Binary64.isFinite_iff.mp h
    have hsign : (Binary64.finite false m).shortest.negative = false := by
      rw [Binary64.shortest_signed]
    obtain ⟨k, hchars, -, hdecimal, -⟩ := Layout.exact_chars hsign (Binary64.exponent_shortest m)
    refine ⟨k, ?_, ?_⟩
    · rw [decimal, Binary64.shortest_signed]
      cases s with
      | false => exact hchars
      | true => exact (Binary64.chars_negative m).trans (congrArg _ hchars)
    · rw [decimal, Binary64.shortest_signed]
      generalize (Binary64.finite false m).shortest = d at hsign hdecimal ⊢
      obtain ⟨negative, coefficient, exponent⟩ := d
      dsimp only at hsign ⊢
      rwa [hsign] at hdecimal

/-- The text of a finite number denotes the value of its decimal. -/
theorem exists_ofChars?_chars {n : Number} (h : n.isFinite) :
    ∃ d, Decimal.ofChars? n.chars = some d ∧ d.value = n.decimal.value := by
  obtain ⟨k, hchars, j, hdecimal⟩ := exists_numeral h
  refine ⟨{ k.decimal with negative := n.decimal.negative }, ?_, ?_⟩
  · rw [hchars, k.ofChars?_signed]
  · rw [hdecimal]
    exact n.decimal.value_padded j

end Spreadsheet.Number
