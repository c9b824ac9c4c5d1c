import Spreadsheet.Address
import Spreadsheet.Proofs.Number.Digits
import Spreadsheet.Proofs.Text.Runs

/-! Addresses as text. At most three letters name a column, so that there are addresses that no text
spells; every other one reads back from its text. -/
namespace Spreadsheet.Address

open Text (isAsciiDigit)

/-! ## Letters of columns -/

/-- How many columns there are with at most `k` letters. -/
def columnsWithin : (k : Nat) → Nat
  | 0 => 0
  | k + 1 => 26 * columnsWithin k + 26

example : columnsWithin 3 = 18278 := rfl

theorem length_letters_le_iff {n k : Nat} : (letters n).length ≤ k ↔ n ≤ columnsWithin k := by
  induction k generalizing n with
  | zero =>
    unfold letters columnsWithin
    split
    · simp [*]
    · simp [*]
  | succ k ih =>
    unfold letters columnsWithin
    split
    · simp [*]
    · rw [List.length_append, List.length_singleton, Nat.add_le_add_iff_right, ih]
      omega

theorem letters_ne_nil {n : Nat} (hn : n ≠ 0) : letters n ≠ [] := by
  unfold letters
  rw [if_neg hn]
  simp

theorem toNat_letter {n : Nat} (hn : n < 26) : (letter n).toNat = 0x41 + n := by
  revert n
  decide

theorem isColumnLetter_of_mem_letters {n : Nat} {c : Char} (h : c ∈ letters n) :
    isColumnLetter c := by
  induction n using letters.induct with
  | case1 =>
    unfold letters at h
    simp at h
  | case2 n hn ih =>
    unfold letters at h
    rw [if_neg hn, List.mem_append, List.mem_singleton] at h
    rcases h with h | rfl
    · exact ih h
    · unfold isColumnLetter
      rw [toNat_letter (Nat.mod_lt _ (by omega)), Bool.and_eq_true, decide_eq_true_eq,
        decide_eq_true_eq]
      omega

theorem upperChar_of_isColumnLetter {c : Char} (h : isColumnLetter c) : Text.upperChar c = [c] := by
  unfold isColumnLetter at h
  simp only [Bool.and_eq_true, decide_eq_true_eq] at h
  exact Text.upperChar_eq_self (by omega) (by omega)

theorem foldl_letters (n : Nat) :
    (letters n).foldl (fun index c => index * 26 + ((c.toNat : Int) - 0x40)) 0 = n := by
  induction n using letters.induct with
  | case1 =>
    unfold letters
    rfl
  | case2 n hn ih =>
    unfold letters
    rw [if_neg hn, List.foldl_append, ih, List.foldl_cons, List.foldl_nil,
      toNat_letter (Nat.mod_lt _ (by omega))]
    omega

/-- The letters of a column denote the column. -/
theorem columnIndex_letters (n : Nat) : columnIndex (letters n) = (n : Int) - 1 := by
  unfold columnIndex
  rw [Text.upper_eq_self fun c hc => upperChar_of_isColumnLetter (isColumnLetter_of_mem_letters hc),
    foldl_letters]

theorem foldl_le_columnsWithin {cs : List Char} (h : ∀ c ∈ cs, isColumnLetter c) {n : Int} {k : Nat}
    (hn : n ≤ columnsWithin k) :
    cs.foldl (fun index c => index * 26 + ((c.toNat : Int) - 0x40)) n ≤
      columnsWithin (k + cs.length) := by
  induction cs generalizing n k with
  | nil => exact hn
  | cons c cs ih =>
    have hc := h c List.mem_cons_self
    unfold isColumnLetter at hc
    simp only [Bool.and_eq_true, decide_eq_true_eq] at hc
    have hnext : n * 26 + ((c.toNat : Int) - 0x40) ≤ columnsWithin (k + 1) := by
      rw [columnsWithin]
      omega
    have hrest := ih (fun d hd => h d (List.mem_cons_of_mem c hd)) hnext
    rwa [List.foldl_cons, List.length_cons, ← Nat.add_assoc, Nat.add_right_comm]

theorem columnsWithin_mono {j k : Nat} (h : j ≤ k) : columnsWithin j ≤ columnsWithin k := by
  induction h with
  | refl => exact Nat.le_refl _
  | step _ ih =>
    rw [columnsWithin]
    omega

/-- Few letters denote no column further right. -/
theorem columnIndex_lt {cs : List Char} (h : ∀ c ∈ cs, isColumnLetter c) {k : Nat}
    (hk : cs.length ≤ k) : columnIndex cs < columnsWithin k := by
  have hfold := foldl_le_columnsWithin h (n := 0) (k := 0) (Int.le_refl 0)
  have hmono := columnsWithin_mono hk
  unfold columnIndex
  rw [Text.upper_eq_self fun c hc => upperChar_of_isColumnLetter (h c hc)]
  rw [Nat.zero_add] at hfold
  omega

private theorem length_le_foldl {cs : List Char} (h : ∀ c ∈ cs, isColumnLetter c) {n : Int}
    (hn : 0 ≤ n) :
    n + cs.length ≤ cs.foldl (fun index c => index * 26 + ((c.toNat : Int) - 0x40)) n := by
  induction cs generalizing n with
  | nil => simp
  | cons c cs ih =>
    have hc := h c List.mem_cons_self
    unfold isColumnLetter at hc
    simp only [Bool.and_eq_true, decide_eq_true_eq] at hc
    have hrest := ih (fun d hd => h d (List.mem_cons_of_mem c hd))
      (n := n * 26 + ((c.toNat : Int) - 0x40)) (by omega)
    rw [List.foldl_cons, List.length_cons]
    omega

theorem columnIndex_nonneg {cs : List Char} (h : ∀ c ∈ cs, isColumnLetter c) (hne : cs ≠ []) :
    0 ≤ columnIndex cs := by
  unfold columnIndex
  rw [Text.upper_eq_self fun c hc => upperChar_of_isColumnLetter (h c hc)]
  have hlength := length_le_foldl h (n := 0) (by omega)
  have hpos : 0 < cs.length := List.length_pos_iff.mpr hne
  omega

/-! ## Addresses that are read -/

/-- Rows and columns count from zero. -/
def Natural (a : Address) : Prop := 0 ≤ a.row ∧ 0 ≤ a.col

theorem natural_of_ofText? {s : String} {a : Address} (h : ofText? s = .ok a) : a.Natural := by
  unfold ofText? at h
  split at h
  · cases h
  · rename_i letters digits hsplit
    unfold split? at hsplit
    dsimp only at hsplit
    split at hsplit
    · rename_i hshape
      simp only [Bool.and_eq_true, decide_eq_true_eq] at hshape
      cases hsplit
      split at h
      · cases h
      · cases h
      · cases h
        refine ⟨by dsimp only; omega, columnIndex_nonneg ?_ ?_⟩
        · exact List.all_eq_true.mp List.all_takeWhile
        · exact List.ne_nil_of_length_pos hshape.1.1
    · cases hsplit

theorem natural_of_ofGiven? {given : Given} {a : Address} (h : ofGiven? given = .ok a) :
    a.Natural := by
  unfold ofGiven? at h
  split at h
  · exact natural_of_ofText? h
  · split at h
    · contradiction
    · cases h
      exact ⟨by dsimp only; omega, by dsimp only; omega⟩
  · contradiction

/-! ## Addresses that text can spell -/

/-- An address in one of the columns with at most three letters and in a row whose number is short
enough to write. -/
structure Spellable (a : Address) : Prop where
  natural : a.Natural
  col_lt : a.col < columnsWithin 3
  isWritable : a.isWritable

instance (a : Address) : Decidable a.Natural := inferInstanceAs (Decidable (_ ∧ _))

instance (a : Address) : Decidable a.Spellable :=
  decidable_of_iff (a.Natural ∧ a.col < columnsWithin 3 ∧ a.isWritable)
    ⟨fun h => ⟨h.1, h.2.1, h.2.2⟩, fun h => ⟨h.1, h.2, h.3⟩⟩

theorem Natural.chars_eq {a : Address} (h : a.Natural) :
    a.chars = letters (a.col.toNat + 1) ++ Number.natChars (a.row.toNat + 1) := by
  obtain ⟨hrow, hcol⟩ := h
  have hcolumn : (a.col + 1).toNat = a.col.toNat + 1 := by omega
  have hnumber : a.row + 1 = ((a.row.toNat + 1 : Nat) : Int) := by omega
  unfold chars columnChars
  rw [hcolumn, hnumber, Number.toList_toString]

theorem Natural.isWritable_iff {a : Address} (h : a.Natural) :
    a.isWritable ↔ Number.isWritable ((a.row.toNat + 1 : Nat) : Int) := by
  have hnumber : a.row + 1 = ((a.row.toNat + 1 : Nat) : Int) := by
    have := h.1
    omega
  unfold isWritable
  rw [hnumber]

/-- Text can spell all addresses up to some row and column. -/
theorem Natural.spellable_iff_le {a : Address} (h : a.Natural) : a.Spellable ↔
    a.row ≤ Number.tenTo Number.maxDigits - 2 ∧ a.col ≤ columnsWithin 3 - 1 := by
  have hwritable : a.isWritable ↔ a.row ≤ Number.tenTo Number.maxDigits - 2 := by
    have hrow := h.1
    unfold isWritable Number.isWritable
    generalize Number.tenTo Number.maxDigits = limit
    rw [decide_eq_true_eq]
    omega
  rw [← hwritable, Int.le_sub_one_iff]
  exact ⟨fun h => ⟨h.isWritable, h.col_lt⟩, fun ⟨hrow, hcol⟩ => ⟨h, hcol, hrow⟩⟩

theorem length_letters_le_of_spellable {a : Address} (h : a.Spellable) :
    (letters (a.col.toNat + 1)).length ≤ 3 := by
  have hcol := h.col_lt
  have hnat := h.natural.2
  rw [length_letters_le_iff]
  generalize columnsWithin 3 = most at hcol ⊢
  omega

theorem isAsciiDigit_not_blank {c : Char} (h : isAsciiDigit c) : Text.isBlank c = false := by
  unfold isAsciiDigit at h
  simp only [Bool.and_eq_true, decide_eq_true_eq] at h
  unfold Text.isBlank
  simp only [Bool.or_eq_false_iff, Bool.and_eq_false_iff, decide_eq_false_iff_not, beq_eq_false_iff_ne]
  omega

theorem isColumnLetter_not_blank {c : Char} (h : isColumnLetter c) : Text.isBlank c = false := by
  unfold isColumnLetter at h
  simp only [Bool.and_eq_true, decide_eq_true_eq] at h
  unfold Text.isBlank
  simp only [Bool.or_eq_false_iff, Bool.and_eq_false_iff, decide_eq_false_iff_not, beq_eq_false_iff_ne]
  omega

theorem upperChar_of_isAsciiDigit {c : Char} (h : isAsciiDigit c) : Text.upperChar c = [c] := by
  unfold isAsciiDigit at h
  simp only [Bool.and_eq_true, decide_eq_true_eq] at h
  exact Text.upperChar_eq_self (by omega) (by omega)

theorem not_isColumnLetter_of_isAsciiDigit {c : Char} (h : isAsciiDigit c) :
    isColumnLetter c = false := by
  unfold isAsciiDigit at h
  simp only [Bool.and_eq_true, decide_eq_true_eq] at h
  unfold isColumnLetter
  rw [Bool.and_eq_false_iff, decide_eq_false_iff_not]
  omega

theorem dropMark_eq_self {cs : List Char} (h : cs.head? ≠ some '$') : dropMark cs = cs := by
  unfold dropMark
  split
  · exact absurd rfl h
  · rfl

/-- Letters and digits without marks are split where the letters end. -/
theorem split?_append {letters digits : List Char} (hletters : ∀ c ∈ letters, isColumnLetter c)
    (hdigits : ∀ c ∈ digits, isAsciiDigit c) (hpos : 1 ≤ letters.length) (hmost : letters.length ≤ 3)
    (hne : digits ≠ []) : split? (letters ++ digits) = some (letters, digits) := by
  have hstops : Text.Stops isColumnLetter digits :=
    Text.stops_of_forall fun c hc => not_isColumnLetter_of_isAsciiDigit (hdigits c hc)
  have hfirst : (letters ++ digits).head? ≠ some '$' := by
    obtain ⟨c, cs, rfl⟩ := List.exists_cons_of_length_pos hpos
    rintro ⟨rfl⟩
    exact absurd (hletters '$' List.mem_cons_self) (by decide)
  have hmark : digits.head? ≠ some '$' := by
    intro hhead
    exact absurd (hdigits '$' (List.mem_of_mem_head? hhead)) (by decide)
  unfold split?
  dsimp only
  rw [dropMark_eq_self hfirst, Text.takeWhile_append_of_stops hletters hstops,
    Text.dropWhile_append_of_stops hletters hstops, dropMark_eq_self hmark,
    Number.isDigits_of_isAsciiDigit hne hdigits, if_pos]
  simp only [Bool.and_true, Bool.and_eq_true, decide_eq_true_eq]
  exact ⟨hpos, hmost⟩

theorem letters_of_split? {cs letters digits : List Char} (h : split? cs = some (letters, digits)) :
    (∀ c ∈ letters, isColumnLetter c) ∧ letters.length ≤ 3 := by
  unfold split? at h
  dsimp only at h
  split at h
  · rename_i hshape
    simp only [Bool.and_eq_true, decide_eq_true_eq] at hshape
    cases h
    exact ⟨List.all_eq_true.mp List.all_takeWhile, hshape.1.2⟩
  · cases h

/-- An address reads back from its text. -/
theorem ofText?_text {a : Address} (h : a.Spellable) : ofText? a.text = .ok a := by
  have hletters : ∀ c ∈ letters (a.col.toNat + 1), isColumnLetter c :=
    fun _ => isColumnLetter_of_mem_letters
  have hdigits : ∀ c ∈ Number.natChars (a.row.toNat + 1), isAsciiDigit c :=
    fun _ => Number.isAsciiDigit_of_mem_natChars
  have hblank : ∀ c ∈ a.chars, Text.isBlank c = false := by
    rw [h.natural.chars_eq]
    intro c hc
    exact (List.mem_append.mp hc).elim (fun hc => isColumnLetter_not_blank (hletters c hc))
      fun hc => isAsciiDigit_not_blank (hdigits c hc)
  have hupper : ∀ c ∈ a.chars, Text.upperChar c = [c] := by
    rw [h.natural.chars_eq]
    intro c hc
    exact (List.mem_append.mp hc).elim (fun hc => upperChar_of_isColumnLetter (hletters c hc))
      fun hc => upperChar_of_isAsciiDigit (hdigits c hc)
  unfold ofText? text
  rw [String.toList_ofList, Text.trim_eq_self_of_forall hblank, Text.upper_eq_self hupper,
    h.natural.chars_eq, split?_append hletters hdigits
      (List.length_pos_iff.mpr (letters_ne_nil (Nat.succ_ne_zero _)))
      (length_letters_le_of_spellable h) (Number.natChars_ne_nil _)]
  dsimp only
  rw [Number.natOfDigits_natChars (h.natural.isWritable_iff.mp h.isWritable)]
  dsimp only
  rw [columnIndex_letters]
  obtain ⟨row, col⟩ := a
  obtain ⟨hrow, hcol⟩ := h.natural
  dsimp only at hrow hcol
  simp only [Except.ok.injEq, mk.injEq]
  omega

/-- What reads as an address can be spelled. -/
theorem Spellable.eq_of_text {a b : Address} (ha : a.Spellable) (hb : b.Spellable)
    (h : a.text = b.text) : a = b := by
  have hsame := ofText?_text ha
  rw [h, ofText?_text hb] at hsame
  cases hsame
  rfl

theorem spellable_of_ofText? {s : String} {a : Address} (h : ofText? s = .ok a) : a.Spellable := by
  refine ⟨natural_of_ofText? h, ?_, ?_⟩
  · unfold ofText? at h
    split at h
    · cases h
    · rename_i letters digits hsplit
      obtain ⟨hletters, hmost⟩ := letters_of_split? hsplit
      split at h
      · cases h
      · cases h
      · cases h
        exact columnIndex_lt hletters hmost
  · unfold ofText? at h
    split at h
    · cases h
    · split at h
      · cases h
      · cases h
      · rename_i row hrow
        cases h
        exact Number.isWritable_of_natOfDigits hrow

end Spreadsheet.Address
