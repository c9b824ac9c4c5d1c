import Spreadsheet.Number.Numeral

/-! Digits in base ten: what is written of a whole number denotes that number. -/
namespace Spreadsheet

namespace Text

theorem isAsciiDigit_eq_isDigit (c : Char) : isAsciiDigit c = c.isDigit := by
  unfold isAsciiDigit Char.isDigit
  rw [Bool.eq_iff_iff]
  simp only [Bool.and_eq_true, decide_eq_true_eq, UInt32.le_iff_toNat_le, ge_iff_le]
  exact Iff.rfl

theorem digit?_of_isAsciiDigit {c : Char} (h : isAsciiDigit c) : digit? c = some (c.toNat - 0x30) := by
  unfold isAsciiDigit at h
  have hcode : 0x30 ≤ c.toNat ∧ c.toNat ≤ 0x39 := by simpa using h
  unfold digit?
  dsimp only
  rw [if_pos (by omega), if_pos h]

theorem isDigit_of_isAsciiDigit {c : Char} (h : isAsciiDigit c) : isDigit c := by
  rw [isDigit, digit?_of_isAsciiDigit h]
  rfl

/-- The number that ASCII digits denote after some others of value `n`. -/
theorem foldl_eq_ofDigitChars {cs : List Char} (h : ∀ c ∈ cs, isAsciiDigit c) (n : Nat) :
    cs.foldl (fun n c => 10 * n + (digit? c).getD 0) n = Nat.ofDigitChars 10 cs n := by
  induction cs generalizing n with
  | nil => rfl
  | cons c cs ih =>
    rw [List.foldl_cons, digit?_of_isAsciiDigit (h c List.mem_cons_self),
      ih fun d hd => h d (List.mem_cons_of_mem c hd), Nat.ofDigitChars_cons]
    rfl

theorem numeral_eq_ofDigitChars {cs : List Char} (h : ∀ c ∈ cs, isAsciiDigit c) :
    numeral cs = Nat.ofDigitChars 10 cs 0 := foldl_eq_ofDigitChars h 0

theorem numeral_append {cs ds : List Char} (hcs : ∀ c ∈ cs, isAsciiDigit c)
    (hds : ∀ d ∈ ds, isAsciiDigit d) :
    numeral (cs ++ ds) = numeral cs * Number.tenTo ds.length + numeral ds := by
  have hall : ∀ c ∈ cs ++ ds, isAsciiDigit c := by
    intro c hc
    exact (List.mem_append.mp hc).elim (hcs c) (hds c)
  rw [numeral_eq_ofDigitChars hall, numeral_eq_ofDigitChars hcs, numeral_eq_ofDigitChars hds,
    Nat.ofDigitChars_append, Nat.ofDigitChars_eq_ofDigitChars_zero, Nat.mul_comm]
  rfl

theorem digit?_lt {c : Char} {n : Nat} (h : digit? c = some n) : n < 10 := by
  unfold digit? at h
  dsimp only at h
  split at h
  · split at h
    · rename_i hcode
      simp only [Bool.and_eq_true, decide_eq_true_eq] at hcode
      cases h
      omega
    · contradiction
  · obtain ⟨first, hfirst, rfl⟩ := Option.map_eq_some_iff.mp h
    have hrun := List.find?_some hfirst
    simp only [Bool.and_eq_true, decide_eq_true_eq] at hrun
    omega

theorem numeral_lt (cs : List Char) : numeral cs < Number.tenTo cs.length := by
  have hfold : ∀ (cs : List Char) (n k : Nat), n < Number.tenTo k →
      cs.foldl (fun n c => 10 * n + (digit? c).getD 0) n < Number.tenTo (k + cs.length) := by
    intro cs
    induction cs with
    | nil => exact fun n k h => h
    | cons c cs ih =>
      intro n k hn
      have hdigit : (digit? c).getD 0 < 10 := by
        cases hc : digit? c with
        | none => exact Nat.succ_pos 9
        | some d => exact digit?_lt hc
      have hnext : 10 * n + (digit? c).getD 0 < Number.tenTo (k + 1) := by
        rw [Number.tenTo_succ]
        omega
      rw [List.foldl_cons, List.length_cons, ← Nat.add_assoc, Nat.add_right_comm]
      exact ih _ (k + 1) hnext
  have hcount := hfold cs 0 0 (Number.tenTo_pos 0)
  rwa [Nat.zero_add] at hcount

theorem isAsciiDigit_of_mem_replicate {k : Nat} {c : Char} (h : c ∈ List.replicate k '0') :
    isAsciiDigit c := by
  rw [List.eq_of_mem_replicate h]
  rfl

theorem numeral_replicate (k : Nat) : numeral (List.replicate k '0') = 0 := by
  rw [numeral_eq_ofDigitChars fun c => isAsciiDigit_of_mem_replicate,
    Nat.ofDigitChars_replicate_zero, Nat.mul_zero]

end Text

namespace Number

open Text (isAsciiDigit numeral)

theorem isAsciiDigit_of_mem_natChars {n : Nat} {c : Char} (h : c ∈ natChars n) : isAsciiDigit c := by
  rw [Text.isAsciiDigit_eq_isDigit]
  exact Nat.isDigit_of_mem_toDigits (by omega) (by omega) h

theorem isDigits_of_isAsciiDigit {cs : List Char} (hne : cs ≠ []) (h : ∀ c ∈ cs, isAsciiDigit c) :
    isDigits cs := by
  unfold isDigits
  simp only [Bool.and_eq_true, Bool.not_eq_true', List.isEmpty_eq_false_iff, List.all_eq_true]
  exact ⟨hne, fun c hc => Text.isDigit_of_isAsciiDigit (h c hc)⟩

theorem numeral_natChars (n : Nat) : numeral (natChars n) = n := by
  rw [Text.numeral_eq_ofDigitChars fun c => isAsciiDigit_of_mem_natChars]
  exact Nat.ofDigitChars_ten_toDigits

theorem natChars_ne_nil (n : Nat) : natChars n ≠ [] := Nat.toDigits_ne_nil

theorem length_natChars_le_iff {n k : Nat} (hk : 0 < k) : (natChars n).length ≤ k ↔ n < tenTo k :=
  Nat.length_toDigits_le_iff (by omega) hk

/-- A number of more than one digit starts with no zero. -/
theorem eq_nil_of_natChars {n : Nat} {digits : List Char} (h : natChars n = '0' :: digits) :
    digits = [] := by
  rcases Nat.eq_zero_or_pos digits.length with hzero | hpos
  · exact List.eq_nil_of_length_eq_zero hzero
  have hvalue : n = numeral digits := by
    have hnumeral := congrArg numeral h
    rwa [numeral_natChars] at hnumeral
  have hlength := (length_natChars_le_iff hpos).mpr (hvalue ▸ Text.numeral_lt digits)
  rw [h, List.length_cons] at hlength
  omega

theorem toList_toString (n : Nat) : (toString (n : Int)).toList = natChars n := Nat.toList_repr

theorem toList_toString_negSucc (n : Nat) :
    (toString (Int.negSucc n)).toList = '-' :: natChars (n + 1) := by
  change ("-" ++ Nat.repr (n + 1)).toList = _
  rw [String.toList_append, Nat.toList_repr]
  rfl

/-- The digits of a whole number stand behind a minus sign or alone. -/
theorem toList_toString_int (i : Int) : (toString i).toList =
    if i < 0 then '-' :: natChars i.natAbs else natChars i.natAbs := by
  cases i with
  | ofNat n =>
    rw [Int.ofNat_eq_natCast, if_neg (Int.not_lt.mpr (Int.natCast_nonneg n))]
    exact toList_toString n
  | negSucc n =>
    rw [if_pos (Int.negSucc_lt_zero n)]
    exact toList_toString_negSucc n

/-- A number that is short enough to write is short enough to read. -/
theorem natOfDigits_natChars {n : Nat} (h : isWritable n) : natOfDigits (natChars n) = .ok n := by
  have hlength : (natChars n).length ≤ maxDigits := by
    rw [length_natChars_le_iff (by decide)]
    unfold isWritable at h
    generalize tenTo maxDigits = limit at h ⊢
    simpa using h
  unfold natOfDigits
  rw [if_neg (by omega), numeral_natChars]

/-- What is read is short enough to write. -/
theorem isWritable_of_natOfDigits {cs : List Char} {n : Nat} (h : natOfDigits cs = .ok n) :
    isWritable n := by
  unfold natOfDigits at h
  unfold isWritable
  generalize maxDigits = most at h ⊢
  split at h
  · contradiction
  · rename_i hlength
    cases h
    have hpow : tenTo cs.length ≤ tenTo most :=
      Nat.pow_le_pow_right (Nat.succ_pos 9) (Nat.le_of_not_lt hlength)
    rw [decide_eq_true_eq]
    exact Nat.lt_of_lt_of_le (Text.numeral_lt cs) hpow

theorem isWritable_signed {n : Nat} (h : isWritable n) (negative : Bool) :
    isWritable (signed negative n) := by
  cases negative with
  | false => exact h
  | true =>
    unfold isWritable at h ⊢
    rwa [signed, if_pos rfl, Int.natAbs_neg]

end Number
end Spreadsheet
