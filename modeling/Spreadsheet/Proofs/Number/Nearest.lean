import Mathlib.Tactic.Linarith
import Spreadsheet.Number.Binary64

/-! Rounding to binary floating point. The result depends on nothing but the value of the quotient, and
a quotient close enough to a magnitude rounds to it. -/
namespace Spreadsheet.Number

theorem twoTo_le_twoTo {j k : Nat} (h : j ≤ k) : twoTo j ≤ twoTo k :=
  Nat.pow_le_pow_right (Nat.succ_pos 1) h

theorem roundHalfEven_mul_left {k : Nat} (hk : 0 < k) (n d : Nat) :
    roundHalfEven (k * n) (k * d) = roundHalfEven n d := by
  unfold roundHalfEven
  dsimp only
  rw [Nat.mul_div_mul_left n d hk, Nat.mul_mod_mul_left, Nat.mul_left_comm 2 k]
  simp only [Nat.mul_lt_mul_left hk]

/-- The whole number that is nearer than any other. -/
theorem roundHalfEven_eq {n d q : Nat} (hlow : 2 * (q * d) < 2 * n + d)
    (hhigh : 2 * n < 2 * (q * d) + d) : roundHalfEven n d = q := by
  have hd : 0 < d := by
    by_contra hzero
    obtain rfl : d = 0 := by omega
    omega
  unfold roundHalfEven
  dsimp only
  rcases Nat.lt_or_ge n (q * d) with hbelow | habove
  · -- below `q` the quotient is `q - 1`, with more than a half left
    have hq : 0 < q := by
      by_contra hzero
      obtain rfl : q = 0 := by omega
      omega
    have hsplit : q * d = (q - 1) * d + d := by
      obtain ⟨p, rfl⟩ : ∃ p, q = p + 1 := ⟨q - 1, by omega⟩
      rw [Nat.add_sub_cancel, Nat.succ_mul]
    have hquotient : n / d = q - 1 := Nat.div_eq_of_lt_le (by omega) (by
      rw [Nat.sub_add_cancel hq]
      exact hbelow)
    have hrest : n % d = n - (q - 1) * d := by
      rw [Nat.mod_eq_sub_mul_div, hquotient, Nat.mul_comm]
    rw [hquotient, hrest, if_neg (by omega), if_pos (by omega)]
    omega
  · have hquotient : n / d = q := Nat.div_eq_of_lt_le habove (by
      rw [Nat.succ_mul]
      omega)
    have hrest : n % d = n - q * d := by
      rw [Nat.mod_eq_sub_mul_div, hquotient, Nat.mul_comm]
    rw [hquotient, hrest, if_pos (by omega)]

/-- Rounding is off by at most a half. -/
theorem roundHalfEven_close {n d : Nat} (hd : 0 < d) :
    2 * (roundHalfEven n d * d) ≤ 2 * n + d ∧ 2 * n ≤ 2 * (roundHalfEven n d * d) + d := by
  have hsplit := Nat.div_add_mod n d
  have hrest := Nat.mod_lt n hd
  rw [Nat.mul_comm] at hsplit
  unfold roundHalfEven
  dsimp only
  generalize n / d = q at hsplit ⊢
  generalize n % d = r at hsplit hrest ⊢
  have hnext : (q + 1) * d = q * d + d := Nat.succ_mul q d
  split
  · omega
  · split
    · omega
    · split <;> omega

namespace Magnitude

/-- At which shift the significand of a quotient fits, and no less does. -/
def FitsAt (n d p : Nat) : Prop := n < d * twoTo (p + 53) ∧ (p = 0 ∨ d * twoTo (p + 52) ≤ n)

theorem FitsAt.unique {n d p q : Nat} (hp : FitsAt n d p) (hq : FitsAt n d q) : p = q := by
  have hmono : ∀ {j k : Nat}, j ≤ k → d * twoTo j ≤ d * twoTo k :=
    fun h => Nat.mul_le_mul_left d (twoTo_le_twoTo h)
  obtain ⟨hlt, hle⟩ := hp
  obtain ⟨hlt', hle'⟩ := hq
  rcases Nat.lt_trichotomy p q with h | h | h
  · have := hmono (j := p + 53) (k := q + 52) (by omega)
    omega
  · exact h
  · have := hmono (j := q + 53) (k := p + 52) (by omega)
    omega

theorem fitsAt_shiftFor {n d : Nat} (hd : 0 < d) : FitsAt n d (shiftFor n d) := by
  have hn : n < twoTo (n.log2 + 1) := Nat.lt_log2_self
  have hdlow : twoTo d.log2 ≤ d := Nat.log2_self_le (by omega)
  have hdhigh : d < twoTo (d.log2 + 1) := Nat.lt_log2_self
  unfold shiftFor
  dsimp only
  generalize hp : n.log2 - (d.log2 + 52) = p
  have hhigh : n < d * twoTo (p + 53) := by
    calc n < twoTo (n.log2 + 1) := hn
      _ ≤ twoTo (d.log2 + (p + 53)) := twoTo_le_twoTo (by omega)
      _ = twoTo d.log2 * twoTo (p + 53) := twoTo_add _ _
      _ ≤ d * twoTo (p + 53) := Nat.mul_le_mul_right _ hdlow
  split
  · rename_i hless
    obtain ⟨hpos, hless⟩ := hless
    obtain ⟨q, rfl⟩ : ∃ q, p = q + 1 := ⟨p - 1, by omega⟩
    rw [Nat.add_sub_cancel]
    refine ⟨by rwa [Nat.add_right_comm] at hless, ?_⟩
    by_cases hq : q = 0
    · exact .inl hq
    · right
      have hne : n ≠ 0 := by
        rintro rfl
        simp at hp
      calc d * twoTo (q + 52) ≤ twoTo (d.log2 + 1) * twoTo (q + 52) :=
            Nat.mul_le_mul_right _ hdhigh.le
        _ = twoTo (d.log2 + 1 + (q + 52)) := (twoTo_add _ _).symm
        _ ≤ twoTo n.log2 := twoTo_le_twoTo (by omega)
        _ ≤ n := Nat.log2_self_le hne
  · rename_i hless
    refine ⟨hhigh, ?_⟩
    by_cases hzero : p = 0
    · exact .inl hzero
    · exact .inr (Nat.le_of_not_lt fun hlt => hless ⟨by omega, hlt⟩)

theorem shiftFor_eq {n d p : Nat} (hd : 0 < d) (h : FitsAt n d p) : shiftFor n d = p :=
  (fitsAt_shiftFor hd).unique h

theorem nearest?_mul_left {k : Nat} (hk : 0 < k) {n d : Nat} (hd : 0 < d) :
    nearest? (k * n) (k * d) = nearest? n d := by
  have hshift : shiftFor (k * n) (k * d) = shiftFor n d := by
    apply shiftFor_eq (Nat.mul_pos hk hd)
    obtain ⟨hlt, hle⟩ := fitsAt_shiftFor (n := n) hd
    unfold FitsAt
    rw [Nat.mul_assoc, Nat.mul_assoc, Nat.mul_lt_mul_left hk, Nat.mul_le_mul_left_iff hk]
    exact ⟨hlt, hle⟩
  unfold nearest?
  dsimp only
  rw [hshift, Nat.mul_assoc, roundHalfEven_mul_left hk]

/-- Equal quotients have one nearest magnitude. -/
theorem nearest?_congr {n d n' d' : Nat} (hd : 0 < d) (hd' : 0 < d') (h : n * d' = n' * d) :
    nearest? n d = nearest? n' d' := by
  rw [← nearest?_mul_left hd' hd, ← nearest?_mul_left hd hd', Nat.mul_comm d' n, h, Nat.mul_comm n' d,
    Nat.mul_comm d' d]

theorem ofParts?_eq (m : Magnitude) : ofParts? m.significand m.shift = some m :=
  dif_pos ⟨m.significand_lt, m.shift_le, m.normal⟩

theorem nearest?_of_shiftFor {n d : Nat} (m : Magnitude) (hshift : shiftFor n d = m.shift)
    (hround : roundHalfEven n (d * twoTo m.shift) = m.significand) : nearest? n d = some m := by
  have hlt := m.significand_lt
  unfold nearest?
  dsimp only
  rw [hshift, hround, if_neg (by omega)]
  exact ofParts?_eq m

theorem mul_twoTo_add (d p k : Nat) : d * twoTo (p + k) = d * twoTo p * twoTo k := by
  rw [twoTo_add, Nat.mul_assoc]

/-- A quotient just below a power of two rounds to it, though the gaps there are half as wide. -/
theorem nearest?_of_below {n d below : Nat} (m : Magnitude) (hd : 0 < d) (hshift : m.shift = below + 1)
    (hleast : m.significand = twoTo 52)
    (hlow : d * twoTo m.shift * twoTo 52 * (twoTo 54 - 1) < n * twoTo 54)
    (hbelow : n < d * twoTo m.shift * twoTo 52) : nearest? n d = some m := by
  have hunit : 0 < d * twoTo below := Nat.mul_pos hd (twoTo_pos below)
  have hhalf : d * twoTo m.shift = d * twoTo below * 2 := by
    rw [hshift, mul_twoTo_add, show twoTo 1 = 2 from rfl]
  have h52 : twoTo 52 = 4503599627370496 := rfl
  have h53 : twoTo 53 = 9007199254740992 := rfl
  have h54 : twoTo 54 = 18014398509481984 := rfl
  rw [hhalf, h52] at hlow hbelow
  rw [h54] at hlow
  have hfits : FitsAt n d below := by
    unfold FitsAt
    rw [mul_twoTo_add, mul_twoTo_add, h52, h53]
    generalize d * twoTo below = unit at hlow hbelow hunit ⊢
    omega
  have hround : roundHalfEven n (d * twoTo below) = twoTo 53 := by
    rw [h53]
    generalize d * twoTo below = unit at hlow hbelow hunit ⊢
    apply roundHalfEven_eq
    · omega
    · omega
  unfold nearest?
  dsimp only
  rw [shiftFor_eq hd hfits, hround, if_pos rfl, ← hleast, ← hshift]
  exact ofParts?_eq m

/-- A quotient whose relative distance to a magnitude is less than `2 ^ -54` rounds to it: nowhere is
half a gap between neighbouring magnitudes as small as that. -/
theorem nearest?_of_close {n d : Nat} (m : Magnitude)
    (hlow : d * m.units * (twoTo 54 - 1) < n * twoTo 54)
    (hhigh : n * twoTo 54 < d * m.units * (twoTo 54 + 1)) : nearest? n d = some m := by
  have hd : 0 < d := by
    by_contra hzero
    obtain rfl : d = 0 := by omega
    simp at hhigh
  have hunits : d * m.units = d * twoTo m.shift * m.significand := by
    unfold units
    rw [Nat.mul_comm m.significand, Nat.mul_assoc]
  rw [hunits] at hlow hhigh
  have hunit : 0 < d * twoTo m.shift := Nat.mul_pos hd (twoTo_pos m.shift)
  have hgap : d * twoTo m.shift * m.significand + d * twoTo m.shift ≤
      d * twoTo m.shift * twoTo 53 := by
    rw [← Nat.mul_succ]
    exact Nat.mul_le_mul_left _ m.significand_lt
  have h52 : twoTo 52 = 4503599627370496 := rfl
  have h53 : twoTo 53 = 9007199254740992 := rfl
  have h54 : twoTo 54 = 18014398509481984 := rfl
  by_cases hlower : m.shift = 0 ∨ d * twoTo (m.shift + 52) ≤ n
  · rw [h54] at hlow hhigh
    rw [h53] at hgap
    apply nearest?_of_shiftFor m (shiftFor_eq hd ⟨?_, hlower⟩) (roundHalfEven_eq ?_ ?_)
    · rw [mul_twoTo_add, h53]
      omega
    · rw [Nat.mul_comm m.significand]
      omega
    · rw [Nat.mul_comm m.significand]
      omega
  · rw [not_or, mul_twoTo_add, Nat.not_le] at hlower
    obtain ⟨hpos, hbelow⟩ := hlower
    obtain ⟨below, hshift⟩ := Nat.exists_eq_succ_of_ne_zero hpos
    have hleast : m.significand = twoTo 52 := by
      by_contra hne
      have hnormal := m.normal.resolve_right hpos
      have hmore := Nat.mul_le_mul_left (d * twoTo m.shift)
        (Nat.succ_le_of_lt (Nat.lt_of_le_of_ne hnormal (Ne.symm hne)))
      rw [Nat.mul_succ, h52] at hmore
      rw [h54] at hlow hhigh
      rw [h52] at hbelow
      omega
    rw [hleast] at hlow
    exact nearest?_of_below m hd hshift hleast hlow hbelow

end Magnitude

namespace Binary64

theorem ofUnits_congr (negative : Bool) {n d n' d' : Nat}
    (h : Magnitude.nearest? n d = Magnitude.nearest? n' d') :
    ofUnits negative n d = ofUnits negative n' d' := by
  unfold ofUnits
  rw [h]

theorem ofUnits_of_nearest? (negative : Bool) {n d : Nat} {m : Magnitude}
    (h : Magnitude.nearest? n d = some m) : ofUnits negative n d = .finite negative m := by
  unfold ofUnits
  rw [h]

/-- Equal quotients have one nearest number. -/
theorem ofRatio_congr (negative : Bool) {n d n' d' : Nat} (hd : 0 < d) (hd' : 0 < d')
    (h : n * d' = n' * d) : ofRatio negative n d = ofRatio negative n' d' := by
  have hunits : n * one * d' = n' * one * d := by
    generalize one = one
    rw [Nat.mul_right_comm, h, Nat.mul_right_comm]
  exact ofUnits_congr negative (Magnitude.nearest?_congr hd hd' hunits)

end Binary64
end Spreadsheet.Number
