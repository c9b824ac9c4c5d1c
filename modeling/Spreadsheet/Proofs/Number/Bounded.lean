import Spreadsheet.Proofs.Number.Digits
import Spreadsheet.Proofs.Number.Nearest
import Spreadsheet.Number.Basic

/-! Numbers that have a text: whole numbers that are not too long, and finite floats. Arithmetic on numbers
as calculations carry them stays among these. A quotient up to the greatest magnitude has a nearest one,
whole numbers below `2 ^ 53` are magnitudes themselves, and so neither a hundredth, nor a remainder, nor a
root leaves the range. -/
namespace Spreadsheet.Number

theorem roundHalfEven_le {n d q : Nat} (hd : 0 < d) (h : n ≤ q * d) : roundHalfEven n d ≤ q := by
  have hclose := (roundHalfEven_close (n := n) hd).1
  generalize roundHalfEven n d = r at hclose ⊢
  by_contra hlt
  have hmore : (q + 1) * d ≤ r * d := Nat.mul_le_mul_right d (by omega)
  rw [Nat.succ_mul] at hmore
  omega

theorem le_roundHalfEven {n d q : Nat} (hd : 0 < d) (h : q * d ≤ n) : q ≤ roundHalfEven n d := by
  have hclose := (roundHalfEven_close (n := n) hd).2
  generalize roundHalfEven n d = r at hclose ⊢
  by_contra hlt
  have hmore : (r + 1) * d ≤ q * d := Nat.mul_le_mul_right d (by omega)
  rw [Nat.succ_mul] at hmore
  omega

theorem floorSqrt_mul_self_le (n : Nat) : floorSqrt n * floorSqrt n ≤ n := by
  induction n using floorSqrt.induct with
  | case1 n hsmall =>
    rw [floorSqrt, if_pos hsmall]
    have : n = 0 ∨ n = 1 := by omega
    rcases this with rfl | rfl <;> decide
  | case2 n hlarge root hnext ih =>
    rw [floorSqrt, if_neg hlarge]
    dsimp only
    rwa [if_pos hnext]
  | case3 n hlarge root hnext ih =>
    rw [floorSqrt, if_neg hlarge]
    dsimp only
    rw [if_neg hnext, Nat.mul_mul_mul_comm]
    omega

namespace Magnitude

def greatest : Magnitude := ⟨twoTo 53 - 1, 2045, by decide, by decide, .inl (by decide)⟩

theorem units_le_greatest (m : Magnitude) : m.units ≤ greatest.units := by
  have hsignificand := Nat.le_sub_one_of_lt m.significand_lt
  have hshift := twoTo_le_twoTo m.shift_le
  unfold units greatest
  exact Nat.mul_le_mul hsignificand hshift

theorem units_greatest : greatest.units = (twoTo 53 - 1) * twoTo 2045 := by
  simp only [units, greatest]

theorem one_pos : 0 < Binary64.one := twoTo_pos 1074

theorem one_lt_greatest : Binary64.one < greatest.units := by
  have hless : twoTo 1074 * 2 ≤ twoTo 2045 := twoTo_succ 1074 ▸ twoTo_le_twoTo (by omega)
  have hmore : 1 * twoTo 2045 ≤ (twoTo 53 - 1) * twoTo 2045 := Nat.mul_le_mul_right _ (by decide)
  have hpos := one_pos
  unfold Binary64.one at hpos ⊢
  rw [units_greatest]
  generalize twoTo 2045 = high at hless hmore
  generalize twoTo 1074 = low at hpos hless ⊢
  generalize (twoTo 53 - 1) * high = product at hmore ⊢
  omega

/-- A quotient up to the greatest magnitude has a nearest one. -/
theorem exists_nearest? {n d : Nat} (hd : 0 < d) (h : n ≤ d * greatest.units) :
    ∃ m, nearest? n d = some m := by
  obtain ⟨hlt, hle⟩ := fitsAt_shiftFor (n := n) hd
  unfold nearest?
  dsimp only
  generalize shiftFor n d = p at hlt hle ⊢
  have hunit : 0 < d * twoTo p := Nat.mul_pos hd (twoTo_pos p)
  have hround : roundHalfEven n (d * twoTo p) ≤ twoTo 53 := by
    apply roundHalfEven_le hunit
    rw [Nat.mul_comm, ← mul_twoTo_add]
    exact hlt.le
  have hnormal : twoTo 52 ≤ roundHalfEven n (d * twoTo p) ∨ p = 0 := by
    refine hle.symm.imp_left fun hleast => le_roundHalfEven hunit ?_
    rwa [Nat.mul_comm, ← mul_twoTo_add]
  have hshift : p ≤ 2045 := by
    rcases hle with rfl | hleast
    · omega
    · by_contra hmore
      have hpower : twoTo 2098 ≤ twoTo (p + 52) := twoTo_le_twoTo (by omega)
      have hless : greatest.units < twoTo 2098 := by
        rw [units_greatest, show 2098 = 53 + 2045 from rfl, twoTo_add]
        exact Nat.mul_lt_mul_of_pos_right (by decide) (twoTo_pos 2045)
      have hscaled := Nat.mul_le_mul_left d hpower
      have hscaled' := Nat.mul_lt_mul_of_pos_left hless hd
      exact absurd (hscaled'.trans_le (hscaled.trans (hleast.trans h))) (Nat.lt_irrefl _)
  split
  · rename_i hcarry
    -- at the greatest shift no quotient in range rounds up to the next power of two
    have hroom : p ≠ 2045 := by
      rintro rfl
      have hless : roundHalfEven n (d * twoTo 2045) ≤ twoTo 53 - 1 := by
        rw [units_greatest, Nat.mul_left_comm] at h
        exact roundHalfEven_le hunit h
      have : 0 < twoTo 53 := twoTo_pos 53
      omega
    exact ⟨_, dif_pos ⟨by decide, by omega, .inl (Nat.le_refl _)⟩⟩
  · exact ⟨_, dif_pos ⟨by omega, hshift, hnormal⟩⟩

theorem units_of_ofParts? {c p : Nat} {m : Magnitude} (h : ofParts? c p = some m) :
    m.units = c * twoTo p := by
  unfold ofParts? at h
  split at h
  · cases h
    rfl
  · contradiction

theorem units_of_nearest? {n d : Nat} {m : Magnitude} (h : nearest? n d = some m) :
    m.units = roundHalfEven n (d * twoTo (shiftFor n d)) * twoTo (shiftFor n d) := by
  unfold nearest? at h
  dsimp only at h
  split at h
  · rename_i hcarry
    rw [units_of_ofParts? h, hcarry, twoTo_succ (shiftFor n d), Nat.mul_comm _ 2, ← Nat.mul_assoc]
    rfl
  · exact units_of_ofParts? h

/-- No magnitude is less than half of what it is nearest to. -/
theorem le_two_mul_units {n : Nat} {m : Magnitude} (h : nearest? n 1 = some m) :
    n ≤ 2 * m.units := by
  obtain ⟨-, hle⟩ := fitsAt_shiftFor (n := n) Nat.one_pos
  have hunits := units_of_nearest? h
  generalize shiftFor n 1 = p at hle hunits
  have hclose := (roundHalfEven_close (n := n) (d := 1 * twoTo p)
    (Nat.mul_pos Nat.one_pos (twoTo_pos p))).2
  rw [Nat.one_mul] at hclose hunits
  rw [← hunits] at hclose
  rcases hle with rfl | hleast
  · rw [show twoTo 0 = 1 from rfl] at hclose
    omega
  · have hpower : twoTo p ≤ twoTo (p + 52) := twoTo_le_twoTo (by omega)
    omega

/-- A whole number below `2 ^ 53` is a magnitude. -/
theorem exists_units_eq {n : Nat} (h : n < maxExactInt) : ∃ m : Magnitude, m.units = n * Binary64.one := by
  by_cases hn : n = 0
  · exact ⟨zero, by simp [hn, units, zero]⟩
  · have hlog : n.log2 ≤ 52 := by
      have := (Nat.log2_lt hn).mpr h
      omega
    obtain ⟨k, hk⟩ := Nat.exists_eq_add_of_le hlog
    have hlow : twoTo n.log2 ≤ n := Nat.log2_self_le hn
    have hhigh : n < twoTo (n.log2 + 1) := Nat.lt_log2_self
    have hscaled : n * twoTo k < twoTo 53 := by
      calc n * twoTo k < twoTo (n.log2 + 1) * twoTo k :=
            Nat.mul_lt_mul_of_pos_right hhigh (twoTo_pos k)
        _ = twoTo 53 := by rw [← twoTo_add, Nat.add_right_comm, ← hk]
    have hnormal : twoTo 52 ≤ n * twoTo k := by
      rw [hk, twoTo_add]
      exact Nat.mul_le_mul_right _ hlow
    refine ⟨⟨n * twoTo k, 1022 + n.log2, hscaled, by omega, .inl hnormal⟩, ?_⟩
    unfold units Binary64.one
    dsimp only
    rw [Nat.mul_assoc, ← twoTo_add]
    congr 2
    omega

theorem nearest?_units (m : Magnitude) (hm : 0 < m.units) : nearest? m.units 1 = some m := by
  have h54 : 1 < twoTo 54 := by decide
  apply nearest?_of_close
  · rw [Nat.one_mul]
    exact Nat.mul_lt_mul_of_pos_left (by omega) hm
  · rw [Nat.one_mul]
    exact Nat.mul_lt_mul_of_pos_left (by omega) hm

theorem significand_eq_zero_iff (m : Magnitude) : m.significand = 0 ↔ m.units = 0 := by
  unfold units
  rw [Nat.mul_eq_zero]
  exact (or_iff_left (twoTo_pos _).ne').symm

end Magnitude

namespace Binary64

theorem isFinite_iff {x : Binary64} : x.isFinite ↔ ∃ s m, x = .finite s m := by
  cases x <;> simp [isFinite]

theorem isFinite_ofUnits (s : Bool) {n d : Nat} (hd : 0 < d) (h : n ≤ d * Magnitude.greatest.units) :
    (ofUnits s n d).isFinite := by
  obtain ⟨m, hm⟩ := Magnitude.exists_nearest? hd h
  rw [ofUnits_of_nearest? s hm]
  rfl

theorem exists_nearest?_of_isFinite {s : Bool} {n d : Nat} (h : (ofUnits s n d).isFinite) :
    ∃ m, Magnitude.nearest? n d = some m := by
  unfold ofUnits at h
  split at h
  · exact ⟨_, ‹_›⟩
  · contradiction

/-- Whole numbers below `2 ^ 53` are exact as floating point. -/
theorem exists_ofInt {i : Int} (h : i.natAbs < maxExactInt) :
    ∃ m, ofInt i = .finite (i < 0) m ∧ m.units = i.natAbs * one := by
  unfold ofInt ofRatio
  by_cases hi : i = 0
  · have hzero : Magnitude.nearest? 0 1 = some .zero := by decide
    rw [hi, Int.natAbs_zero, Nat.zero_mul]
    exact ⟨.zero, ofUnits_of_nearest? _ hzero, by simp [Magnitude.units, Magnitude.zero]⟩
  · obtain ⟨m, hm⟩ := Magnitude.exists_units_eq h
    have hpos : 0 < m.units := by
      rw [hm]
      exact Nat.mul_pos (by omega) Magnitude.one_pos
    rw [← hm]
    exact ⟨m, ofUnits_of_nearest? _ (Magnitude.nearest?_units m hpos), rfl⟩

theorem isFinite_neg {x : Binary64} (h : x.isFinite) : x.neg.isFinite := by
  cases x <;> first | rfl | contradiction

theorem isFinite_abs {x : Binary64} (h : x.isFinite) : x.abs.isFinite := by
  cases x <;> first | rfl | contradiction

/-- Division by at least one does not leave the range. -/
theorem isFinite_div {s t : Bool} {m k : Magnitude} (h : one ≤ k.units) :
    (div (.finite s m) (.finite t k)).isFinite := by
  have hpos : 0 < k.units := Nat.lt_of_lt_of_le Magnitude.one_pos h
  unfold div
  dsimp only
  rw [if_neg (by rw [k.significand_eq_zero_iff]; omega)]
  apply isFinite_ofUnits _ hpos
  rw [Nat.mul_comm]
  exact Nat.mul_le_mul h m.units_le_greatest

theorem isFinite_add (s t : Bool) (m k : Magnitude) (h : s ≠ t) :
    (add (.finite s m) (.finite t k)).isFinite := by
  unfold add
  dsimp only
  split
  · rfl
  · apply isFinite_ofUnits _ Nat.one_pos
    have hm := m.units_le_greatest
    have hk := k.units_le_greatest
    unfold signedUnits
    generalize m.units = x at hm ⊢
    generalize k.units = y at hk ⊢
    cases s <;> cases t <;> simp_all <;> omega

theorem isFinite_mod {s t : Bool} {m k : Magnitude} (h : k.significand ≠ 0) :
    (mod (.finite s m) (.finite t k)).isFinite := by
  have hpos : 0 < k.units := by
    rw [ne_eq, k.significand_eq_zero_iff] at h
    omega
  have hrest : m.units % k.units ≤ Magnitude.greatest.units :=
    (Nat.mod_lt _ hpos).le.trans k.units_le_greatest
  have hunits : (ofUnits s (m.units % k.units) 1).isFinite :=
    isFinite_ofUnits s Nat.one_pos (by rwa [Nat.one_mul])
  unfold mod
  dsimp only
  rw [if_neg h]
  split
  · rfl
  · split
    · exact hunits
    · rename_i hst
      unfold ofUnits at hunits ⊢
      split
      · exact isFinite_add s t _ k hst
      · rename_i hnone
        simp [hnone, isFinite] at hunits

theorem isFinite_sqrt {s : Bool} {m : Magnitude} (h : s = false ∨ m.significand = 0) :
    (sqrt (.finite s m)).isFinite := by
  have hroot := floorSqrt_mul_self_le (m.units * one)
  have hless : floorSqrt (m.units * one) < Magnitude.greatest.units := by
    by_contra hge
    rw [Nat.not_lt] at hge
    have hsquare := Nat.mul_le_mul hge hge
    have hproduct := Nat.mul_le_mul_right one m.units_le_greatest
    have hone := Nat.mul_lt_mul_of_pos_left Magnitude.one_lt_greatest
      (Magnitude.one_pos.trans Magnitude.one_lt_greatest)
    exact absurd ((hsquare.trans hroot).trans hproduct) (Nat.not_le_of_lt hone)
  unfold sqrt
  dsimp only
  split
  · rfl
  · rename_i hzero
    rw [h.resolve_right hzero, if_neg Bool.false_ne_true]
    split
    · exact isFinite_ofUnits _ Nat.one_pos (by omega)
    · exact isFinite_ofUnits _ Nat.two_pos (by omega)

end Binary64

/-! ## Numbers -/

/-- A number with a text: a whole number that is not too long, or a finite float. -/
def Bounded : Number → Prop
  | .int i => isWritable i
  | .float x => x.isFinite

/-- A number as calculations carry it. -/
def Carried : Number → Prop
  | .int i => i.natAbs < maxExactInt
  | .float x => x.isFinite

theorem isWritable_of_natAbs_le {i : Int} {n : Nat} (h : i.natAbs ≤ n) (hn : n < tenTo maxDigits) :
    isWritable i := by
  unfold isWritable
  rw [decide_eq_true_eq]
  exact Nat.lt_of_le_of_lt h hn

theorem isWritable_of_lt_maxExactInt {i : Int} (h : i.natAbs < maxExactInt) : isWritable i :=
  isWritable_of_natAbs_le (Nat.le_of_lt h) (by decide +kernel)

theorem Carried.bounded {n : Number} (h : n.Carried) : n.Bounded := by
  cases n with
  | int i => exact isWritable_of_lt_maxExactInt h
  | float x => exact h

theorem carried_of_carried? {n m : Number} (h : n.carried? = some m) : m.Carried := by
  unfold carried? at h
  split at h
  · split at h
    · cases h
      assumption
    · obtain ⟨x, hx, rfl⟩ := Option.map_eq_some_iff.mp h
      simp only [float?, Option.ite_none_right_eq_some, Option.some.injEq] at hx
      exact hx.2 ▸ hx.1
  · simp only [Option.ite_none_right_eq_some, Option.some.injEq] at h
    exact h.2 ▸ h.1

theorem Carried.neg {n : Number} (h : n.Carried) : n.neg.Carried := by
  cases n with
  | int i =>
    have habs := Int.natAbs_neg i
    unfold Number.neg
    unfold Carried at h ⊢
    dsimp only at h ⊢
    rwa [habs]
  | float x => exact Binary64.isFinite_neg h

theorem Carried.abs {n : Number} (h : n.Carried) : n.abs.Carried := by
  cases n with
  | int i => exact h
  | float x => exact Binary64.isFinite_abs h

/-- A carried number is finite as floating point, and zero only if it is zero itself. -/
theorem Carried.exists_float? {n : Number} (h : n.Carried) :
    ∃ s m, n.float? = some (.finite s m) ∧ (m.significand = 0 ↔ n.isZero) ∧
      (s = true → m.significand ≠ 0 → n.lt (.int 0)) := by
  cases n with
  | int i =>
    obtain ⟨m, hm, hunits⟩ := Binary64.exists_ofInt h
    refine ⟨i < 0, m, ?_, ?_, fun hs _ => ?_⟩
    · unfold float?
      dsimp only
      rw [hm]
      exact if_pos rfl
    · have hone : Binary64.one ≠ 0 := Nat.ne_of_gt Magnitude.one_pos
      rw [m.significand_eq_zero_iff, hunits, Nat.mul_eq_zero, or_iff_left hone]
      simp [isZero]
    · have horder : compare i 0 = .lt := compare_lt_iff_lt.mpr (of_decide_eq_true hs)
      unfold lt compare?
      dsimp only
      rw [horder]
      rfl
  | float x =>
    obtain ⟨s, m, rfl⟩ := Binary64.isFinite_iff.mp h
    refine ⟨s, m, rfl, by simp [isZero, Binary64.isZero], fun hs hm => ?_⟩
    rw [ne_eq, m.significand_eq_zero_iff] at hm
    have horder : compare (-(m.units : Int)) (0 * Binary64.one) = .lt := by
      rw [Int.zero_mul]
      exact compare_lt_iff_lt.mpr (by omega)
    unfold lt compare? Binary64.compareInt? Binary64.signedUnits
    dsimp only
    rw [if_pos hs, horder]
    rfl

/-- A hundredth of a carried number. -/
theorem Carried.percent {n m : Number} (h : n.Carried) (hm : n.div? (.int 100) = some m) :
    m.Carried := by
  cases n with
  | int i =>
    cases hm
    refine Binary64.isFinite_ofUnits _ (by decide) ?_
    calc i.natAbs * Binary64.one ≤ maxExactInt * Binary64.one :=
          Nat.mul_le_mul_right _ (Nat.le_of_lt h)
      _ ≤ _ := by decide +kernel
  | float x =>
    obtain ⟨s, k, rfl⟩ := Binary64.isFinite_iff.mp h
    obtain ⟨k', hhundred, hunits⟩ := Binary64.exists_ofInt (i := 100) (by decide)
    unfold div? float? at hm
    simp only [hhundred, Binary64.isFinite, if_pos, Option.bind_eq_bind, Option.bind_some] at hm
    cases hm
    refine Binary64.isFinite_div ?_
    rw [hunits]
    exact Nat.le_mul_of_pos_left _ (by decide)

theorem Carried.mod {a b n : Number} (ha : a.Carried) (hb : b.Carried) (hzero : b.isZero = false)
    (h : a.mod? b = some n) : n.Carried := by
  obtain ⟨s, m, hm, -⟩ := ha.exists_float?
  obtain ⟨t, k, hk, hk', -⟩ := hb.exists_float?
  have hfloat : (Binary64.mod (.finite s m) (.finite t k)).isFinite := by
    apply Binary64.isFinite_mod
    rw [ne_eq, hk', hzero]
    exact Bool.false_ne_true
  unfold mod? combine? at h
  split at h
  · rename_i i j
    cases h
    have hj : j ≠ 0 := by simpa [isZero] using hzero
    unfold Carried at hb ⊢
    have hrest : (i.fmod j).natAbs < j.natAbs := by
      rcases Int.lt_or_gt_of_ne hj with hneg | hpos
      · have := Int.neg_fmod_neg i j
        have := Int.fmod_nonneg_of_pos (-i) (b := -j) (by omega)
        have := Int.fmod_lt_of_pos (-i) (b := -j) (by omega)
        omega
      · have := Int.fmod_nonneg_of_pos i hpos
        have := Int.fmod_lt_of_pos i hpos
        omega
    omega
  · rw [hm, hk] at h
    cases h
    exact hfloat

theorem Carried.sqrt {n : Number} {x : Binary64} (h : n.Carried) (hlt : n.lt (.int 0) = false)
    (hx : n.float? = some x) : (Number.float x.sqrt).Carried := by
  obtain ⟨s, m, hm, -, hsign⟩ := h.exists_float?
  rw [hm] at hx
  cases hx
  apply Binary64.isFinite_sqrt
  by_contra hneg
  rw [not_or, Bool.not_eq_false] at hneg
  rw [hsign hneg.1 hneg.2] at hlt
  contradiction

end Spreadsheet.Number
