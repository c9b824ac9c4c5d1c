import Spreadsheet.Number.Basic
import Spreadsheet.Proofs.Number.Digits
import Spreadsheet.Proofs.Number.Shortest
import Spreadsheet.Proofs.Text.Runs

/-! Floating-point numbers as they are written: digits, then a fraction or an exponent. What is written
of a number reads back as that number. -/
namespace Spreadsheet.Number

open Text (isAsciiDigit isDigit numeral Stops)

/-- The parts of a number that is written without a sign. -/
structure Numeral where
  whole : List Char
  fraction : List Char
  exponent : Option Int
  whole_ne_nil : whole ≠ []
  isAsciiDigit_whole : ∀ c ∈ whole, isAsciiDigit c
  isAsciiDigit_fraction : ∀ c ∈ fraction, isAsciiDigit c

namespace Numeral

/-- The point and the digits behind it, if there are any. -/
def fractionChars (n : Numeral) : List Char := if n.fraction = [] then [] else '.' :: n.fraction

def exponentPart (n : Numeral) : List Char :=
  match n.exponent with
  | none => []
  | some e => 'e' :: exponentChars e

def chars (n : Numeral) : List Char := n.whole ++ (n.fractionChars ++ n.exponentPart)

/-- The decimal that the parts denote. -/
def decimal (n : Numeral) : Decimal :=
  ⟨false, numeral (n.whole ++ n.fraction), n.exponent.getD 0 - n.fraction.length⟩

/-- A row of digits. -/
def ofNat (n : Nat) : Numeral :=
  ⟨natChars n, [], none, natChars_ne_nil n, fun _ => isAsciiDigit_of_mem_natChars, by simp⟩

theorem chars_ofNat (n : Nat) : (ofNat n).chars = natChars n := List.append_nil _

/-! ## Reading -/

theorem stops_isDigit_exponentPart (n : Numeral) : Stops isDigit n.exponentPart := by
  unfold exponentPart
  split
  · exact Text.stops_nil _
  · exact Text.stops_cons.mpr (by decide)

theorem stops_isDigit_fractionChars (n : Numeral) :
    Stops isDigit (n.fractionChars ++ n.exponentPart) := by
  unfold fractionChars
  split
  · exact n.stops_isDigit_exponentPart
  · exact Text.stops_cons.mpr (by decide)

theorem exponentChars_eq (e : Int) : ∃ digits : List Char,
    exponentChars e = (if e < 0 then '-' else '+') :: digits ∧ digits ≠ [] ∧
      (∀ c ∈ digits, isAsciiDigit c) ∧ numeral digits = e.natAbs := by
  unfold exponentChars
  dsimp only
  by_cases hshort : (natChars e.natAbs).length < 2
  · rw [if_pos hshort]
    refine ⟨_, rfl, List.cons_ne_nil _ _, ?_, numeral_natChars _⟩
    intro c hc
    rcases List.mem_cons.mp hc with rfl | hc
    · rfl
    · exact isAsciiDigit_of_mem_natChars hc
  · rw [if_neg hshort]
    exact ⟨_, rfl, natChars_ne_nil _, fun _ => isAsciiDigit_of_mem_natChars, numeral_natChars _⟩

theorem exponent?_exponentPart (n : Numeral) : exponent? n.exponentPart = some (n.exponent.getD 0) := by
  unfold exponentPart
  cases n.exponent with
  | none => rfl
  | some e =>
    obtain ⟨digits, hchars, hne, hdigits, hvalue⟩ := exponentChars_eq e
    have hrow := isDigits_of_isAsciiDigit hne hdigits
    dsimp only
    rw [hchars]
    unfold exponent?
    by_cases hnegative : e < 0
    · rw [if_pos hnegative]
      simp only [splitSign, hrow, beq_self_eq_true, Bool.true_or, Bool.and_self, if_true, signed,
        hvalue, Option.getD_some]
      congr 1
      omega
    · rw [if_neg hnegative]
      simp only [splitSign, hrow, beq_self_eq_true, Bool.true_or, Bool.and_self, if_true, signed,
        hvalue, Option.getD_some, Bool.false_eq_true, if_false]
      congr 1
      omega

theorem splitSign_of_isAsciiDigit {c : Char} (h : isAsciiDigit c) (cs : List Char) :
    splitSign (c :: cs) = (false, c :: cs) := by
  unfold splitSign
  split
  · rename_i heq
    cases heq
    exact absurd h (by decide)
  · rename_i heq
    cases heq
    exact absurd h (by decide)
  · rfl

theorem exists_chars (n : Numeral) : ∃ c cs, n.chars = c :: cs ∧ isAsciiDigit c := by
  obtain ⟨c, cs, hwhole⟩ := List.exists_cons_of_ne_nil n.whole_ne_nil
  have hdigit := n.isAsciiDigit_whole c (by simp [hwhole])
  unfold chars
  rw [hwhole, List.cons_append]
  exact ⟨c, _, rfl, hdigit⟩

theorem splitSign_chars (n : Numeral) : splitSign n.chars = (false, n.chars) := by
  obtain ⟨c, cs, hchars, hdigit⟩ := n.exists_chars
  rw [hchars]
  exact splitSign_of_isAsciiDigit hdigit cs

theorem ofChars?_chars (n : Numeral) : Decimal.ofChars? n.chars = some n.decimal := by
  have hwhole : ∀ c ∈ n.whole, isDigit c :=
    fun c hc => Text.isDigit_of_isAsciiDigit (n.isAsciiDigit_whole c hc)
  have hfraction : ∀ c ∈ n.fraction, isDigit c :=
    fun c hc => Text.isDigit_of_isAsciiDigit (n.isAsciiDigit_fraction c hc)
  have hnonempty : n.whole.isEmpty = false := by
    rw [List.isEmpty_eq_false_iff]
    exact n.whole_ne_nil
  unfold Decimal.ofChars?
  rw [splitSign_chars]
  dsimp only
  unfold chars
  rw [Text.takeWhile_append_of_stops hwhole n.stops_isDigit_fractionChars,
    Text.dropWhile_append_of_stops hwhole n.stops_isDigit_fractionChars, hnonempty]
  by_cases hpoint : n.fraction = []
  · -- without a fraction the exponent follows, and it starts with no point
    have hnone : ∀ tail, n.exponentPart ≠ '.' :: tail := by
      unfold exponentPart
      cases n.exponent <;> simp
    unfold fractionChars decimal
    rw [if_pos hpoint, List.nil_append]
    simp only [Bool.false_and, Bool.false_eq_true, if_false, exponent?_exponentPart, Option.map_some,
      hpoint, List.append_nil]
  · unfold fractionChars decimal
    rw [if_neg hpoint, List.cons_append]
    simp only [Text.takeWhile_append_of_stops hfraction n.stops_isDigit_exponentPart,
      Text.dropWhile_append_of_stops hfraction n.stops_isDigit_exponentPart,
      exponent?_exponentPart, Bool.false_and, Bool.false_eq_true, if_false, Option.map_some]

end Numeral

/-! ## Writing -/

theorem length_natChars_pos (n : Nat) : 0 < (natChars n).length :=
  List.length_pos_iff.mpr (natChars_ne_nil n)

theorem numeral_replicate_append (k n : Nat) :
    numeral (List.replicate k '0' ++ natChars n) = numeral (natChars n) := by
  rw [Text.numeral_append (fun _ => Text.isAsciiDigit_of_mem_replicate)
    fun _ => isAsciiDigit_of_mem_natChars, Text.numeral_replicate, Nat.zero_mul, Nat.zero_add]

theorem numeral_append_replicate (k n : Nat) :
    numeral (natChars n ++ List.replicate k '0') = numeral (natChars n) * tenTo k := by
  rw [Text.numeral_append (fun _ => isAsciiDigit_of_mem_natChars)
    fun _ => Text.isAsciiDigit_of_mem_replicate, Text.numeral_replicate, List.length_replicate,
    Nat.add_zero]

theorem Decimal.padded_zero (d : Decimal) : d.padded 0 = d := by
  obtain ⟨negative, coefficient, exponent⟩ := d
  unfold padded
  rw [show tenTo 0 = 1 from rfl, Nat.mul_one, Int.ofNat_zero, Int.sub_zero]

namespace Numeral

/-- The point behind the first digits, of which there is at least one. -/
def divided (n more : Nat) (exponent : Option Int) : Numeral where
  whole := (natChars n).take (more + 1)
  fraction := (natChars n).drop (more + 1)
  exponent := exponent
  whole_ne_nil := by simp [natChars_ne_nil]
  isAsciiDigit_whole _ hc := isAsciiDigit_of_mem_natChars (List.mem_of_mem_take hc)
  isAsciiDigit_fraction _ hc := isAsciiDigit_of_mem_natChars (List.mem_of_mem_drop hc)

theorem decimal_divided (n more : Nat) (exponent : Option Int) :
    (divided n more exponent).decimal =
      ⟨false, n, exponent.getD 0 - ((natChars n).length - (more + 1) : Nat)⟩ := by
  unfold decimal divided
  dsimp only
  rw [List.take_append_drop, numeral_natChars, List.length_drop]

/-- All digits behind the point, after some zeros. -/
def fractional (n zeros : Nat) : Numeral where
  whole := ['0']
  fraction := List.replicate zeros '0' ++ natChars n
  exponent := none
  whole_ne_nil := List.cons_ne_nil _ _
  isAsciiDigit_whole _ hc := List.mem_singleton.mp hc ▸ rfl
  isAsciiDigit_fraction _ hc := (List.mem_append.mp hc).elim
    Text.isAsciiDigit_of_mem_replicate isAsciiDigit_of_mem_natChars

theorem decimal_fractional (n zeros : Nat) :
    (fractional n zeros).decimal = ⟨false, n, -(zeros + (natChars n).length : Nat)⟩ := by
  have hzeros : ['0'] ++ (List.replicate zeros '0' ++ natChars n) =
      List.replicate (zeros + 1) '0' ++ natChars n := rfl
  unfold decimal fractional
  dsimp only
  rw [hzeros, numeral_replicate_append, numeral_natChars, List.length_append,
    List.length_replicate, Option.getD_none, Int.zero_sub]

/-- All digits and some zeros before the point, and a zero behind it. -/
def integral (n zeros : Nat) : Numeral where
  whole := natChars n ++ List.replicate zeros '0'
  fraction := ['0']
  exponent := none
  whole_ne_nil := by simp [natChars_ne_nil]
  isAsciiDigit_whole _ hc := (List.mem_append.mp hc).elim
    isAsciiDigit_of_mem_natChars Text.isAsciiDigit_of_mem_replicate
  isAsciiDigit_fraction _ hc := List.mem_singleton.mp hc ▸ rfl

theorem decimal_integral (n zeros : Nat) :
    (integral n zeros).decimal = (⟨false, n, zeros⟩ : Decimal).padded (zeros + 1) := by
  have hzeros : natChars n ++ List.replicate zeros '0' ++ ['0'] =
      natChars n ++ List.replicate (zeros + 1) '0' := by
    rw [List.append_assoc, ← List.replicate_succ']
  unfold decimal integral Decimal.padded
  dsimp only
  rw [hzeros, numeral_append_replicate, numeral_natChars]
  simp only [List.length_singleton, Option.getD_none, Decimal.mk.injEq, true_and]
  omega

end Numeral

/-- Whether the digits before the point are few, and start with a zero only if it stands alone. -/
structure Numeral.Tidy (n : Numeral) : Prop where
  length_le : n.whole.length ≤ 16
  eq_nil : ∀ digits, n.whole = '0' :: digits → digits = []

theorem Numeral.tidy_divided {n more : Nat} (hmore : more < 16) (exponent : Option Int) :
    (divided n more exponent).Tidy := by
  constructor
  · have htake := List.length_take_le (more + 1) (natChars n)
    exact Nat.le_trans htake hmore
  · intro digits hwhole
    obtain ⟨c, rest, hcons⟩ := List.exists_cons_of_ne_nil (natChars_ne_nil n)
    simp only [divided, hcons, List.take_succ_cons, List.cons.injEq] at hwhole
    obtain ⟨rfl, rfl⟩ := hwhole
    rw [eq_nil_of_natChars hcons, List.take_nil]

/-- The exact text of a decimal without a sign shows that it is no whole number, by a fraction or an
exponent, and denotes the decimal. -/
theorem Layout.exact_chars {d : Decimal} (hsign : d.negative = false)
    (hzero : d.coefficient = 0 → d.exponent = 0) : ∃ n : Numeral,
    Layout.exact.chars d = n.chars ∧ (n.fraction ≠ [] ∨ n.exponent ≠ none) ∧
      (∃ j, n.decimal = d.padded j) ∧ n.Tidy := by
  have hlength := length_natChars_pos d.coefficient
  obtain ⟨negative, coefficient, exponent⟩ := d
  dsimp only at hsign hlength hzero
  subst hsign
  unfold Layout.chars
  simp only [Bool.false_eq_true, if_false, List.nil_append]
  generalize hleading : exponent + ((natChars coefficient).length : Int) - 1 = leading
  split
  · -- one digit before the point
    refine ⟨.divided coefficient 0 (some leading), ?_, .inr (by simp [Numeral.divided]), ⟨0, ?_⟩,
      Numeral.tidy_divided (by decide) _⟩
    · simp [Numeral.divided, Numeral.chars, Numeral.fractionChars, Numeral.exponentPart]
    · rw [Decimal.padded_zero, Numeral.decimal_divided, Option.getD_some, Decimal.mk.injEq]
      exact ⟨rfl, rfl, by omega⟩
  split
  · -- zeros behind the point
    refine ⟨.fractional coefficient (-leading - 1).toNat, ?_,
      .inl (by simp [Numeral.fractional, natChars_ne_nil]), ⟨0, ?_⟩,
      (by simp [Numeral.fractional]), by simp [Numeral.fractional]⟩
    · simp [Numeral.fractional, Numeral.chars, Numeral.fractionChars, Numeral.exponentPart,
        natChars_ne_nil]
    · rw [Decimal.padded_zero, Numeral.decimal_fractional, Decimal.mk.injEq]
      exact ⟨rfl, rfl, by omega⟩
  rename_i hplain _
  have hshort : leading < 16 := by
    rw [Bool.or_eq_true, decide_eq_true_eq, decide_eq_true_eq, not_or] at hplain
    exact Int.not_le.mp hplain.2
  by_cases hall : (natChars coefficient).length ≤ leading.toNat + 1
  · -- the point behind all digits
    have hzeros : leading.toNat + 1 - (natChars coefficient).length = exponent.toNat := by omega
    refine ⟨.integral coefficient exponent.toNat, ?_, .inl (by simp [Numeral.integral]),
      ⟨exponent.toNat + 1, ?_⟩, ?_, ?_⟩
    · simp [Numeral.integral, Numeral.chars, Numeral.fractionChars, Numeral.exponentPart,
        Layout.fraction, Layout.exact, hzeros, List.take_of_length_le hall,
        List.drop_eq_nil_of_le hall]
    · rw [Numeral.decimal_integral, show ((exponent.toNat : Int)) = exponent by omega]
    · simp only [Numeral.integral, List.length_append, List.length_replicate]
      omega
    · intro digits hwhole
      obtain ⟨c, rest, hcons⟩ := List.exists_cons_of_ne_nil (natChars_ne_nil coefficient)
      simp only [Numeral.integral, hcons, List.cons_append, List.cons.injEq] at hwhole
      obtain ⟨rfl, rfl⟩ := hwhole
      have hvalue : coefficient = 0 := by
        rw [← numeral_natChars coefficient, hcons, eq_nil_of_natChars hcons]
        rfl
      rw [eq_nil_of_natChars hcons, hzero hvalue]
      rfl
  · -- the point among the digits
    have hrest : (natChars coefficient).drop (leading.toNat + 1) ≠ [] :=
      fun h => hall (List.drop_eq_nil_iff.mp h)
    have hnone : leading.toNat + 1 - (natChars coefficient).length = 0 := by omega
    refine ⟨.divided coefficient leading.toNat none, ?_, .inl hrest, ⟨0, ?_⟩,
      Numeral.tidy_divided (by omega) _⟩
    · simp [Numeral.divided, Numeral.chars, Numeral.fractionChars, Numeral.exponentPart,
        Layout.fraction, hrest, hnone]
    · rw [Decimal.padded_zero, Numeral.decimal_divided, Option.getD_none, Decimal.mk.injEq]
      exact ⟨rfl, rfl, by omega⟩

theorem Layout.chars_negative (layout : Layout) (d : Decimal) :
    layout.chars { d with negative := true } = '-' :: layout.chars { d with negative := false } := by
  unfold Layout.chars
  dsimp only
  split
  · simp
  split <;> simp

theorem Binary64.shortest_signed (negative : Bool) (m : Magnitude) :
    (Binary64.finite negative m).shortest = { (Binary64.finite false m).shortest with negative } := by
  unfold shortest
  by_cases hm : m.significand = 0
  · simp only [if_pos hm]
  · simp only [if_neg hm]

/-- A float is written, behind its sign, as a number that reads back as the float. -/
theorem Binary64.chars_finite (m : Magnitude) : ∃ n : Numeral,
    (Binary64.finite false m).chars = n.chars ∧ (n.fraction ≠ [] ∨ n.exponent ≠ none) ∧
      n.decimal.toBinary = .finite false m ∧ n.Tidy := by
  have hsign : (Binary64.finite false m).shortest.negative = false := by
    rw [shortest_signed]
  obtain ⟨n, hchars, hmark, ⟨j, hdecimal⟩, htidy⟩ :=
    Layout.exact_chars hsign (exponent_shortest m)
  refine ⟨n, hchars, hmark, ?_, htidy⟩
  rw [hdecimal, Decimal.toBinary_padded, Binary64.toBinary_shortest]

theorem Binary64.chars_negative (m : Magnitude) :
    (Binary64.finite true m).chars = '-' :: (Binary64.finite false m).chars := by
  unfold chars
  dsimp only
  rw [shortest_signed true, shortest_signed false, Layout.chars_negative]

end Spreadsheet.Number
