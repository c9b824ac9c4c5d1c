import Mathlib.Data.List.Induction
import Spreadsheet.Proofs.Address.Spelling
import Spreadsheet.Proofs.Except

/-! Names of columns and cells are unique. The letters of a column denote it and no other one, since in a
numeral without a zero every number has one spelling, and the text of a cell is its own alone. -/
namespace Spreadsheet.Address

/-! ## Columns -/

theorem letter_toNat {c : Char} (h : isColumnLetter c) : letter (c.toNat - 0x41) = c := by
  unfold isColumnLetter at h
  simp only [Bool.and_eq_true, decide_eq_true_eq] at h
  rw [letter, Nat.add_sub_cancel' h.1, Char.ofNat_toNat]

/-- One more letter behind those of a column, which may be none. -/
theorem letters_append {n k : Nat} (hk : k < 26) :
    letters (26 * n + k + 1) = letters n ++ [letter k] := by
  conv => lhs; unfold letters
  have hbefore : (26 * n + k + 1 - 1) / 26 = n := by omega
  have hlast : (26 * n + k + 1 - 1) % 26 = k := by omega
  rw [if_neg (Nat.succ_ne_zero _), hbefore, hlast]

/-- The number that letters denote is spelled by them. -/
theorem letters_foldl {cs : List Char} (h : ∀ c ∈ cs, isColumnLetter c) : ∃ n : Nat,
    cs.foldl (fun index c => index * 26 + ((c.toNat : Int) - 0x40)) 0 = n ∧ letters n = cs := by
  induction cs using List.reverseRecOn with
  | nil => exact ⟨0, rfl, by unfold letters; rfl⟩
  | append_singleton cs c ih =>
    obtain ⟨hcs, hc⟩ := List.forall_mem_append.mp h
    obtain ⟨n, hn, hletters⟩ := ih hcs
    have hc := hc c List.mem_cons_self
    have hlast := letter_toNat hc
    unfold isColumnLetter at hc
    simp only [Bool.and_eq_true, decide_eq_true_eq] at hc
    refine ⟨26 * n + (c.toNat - 0x41) + 1, ?_, ?_⟩
    · rw [List.foldl_append, hn, List.foldl_cons, List.foldl_nil]
      omega
    · rw [letters_append (by omega), hletters, hlast]

/-- Letters are the name of the column that they denote. -/
theorem columnChars_columnIndex {cs : List Char} (h : ∀ c ∈ cs, isColumnLetter c) :
    columnChars (columnIndex cs) = cs := by
  obtain ⟨n, hn, hletters⟩ := letters_foldl h
  rw [columnIndex, Text.upper_eq_self fun c hc => upperChar_of_isColumnLetter (h c hc), hn, columnChars,
    Int.sub_add_cancel, Int.toNat_natCast, hletters]

/-- A column is what its name denotes. -/
theorem columnIndex_columnChars {col : Int} (h : 0 ≤ col) : columnIndex (columnChars col) = col := by
  rw [columnChars, columnIndex_letters]
  omega

/-! ## Cells -/

theorem text?_eq_ok {a : Address} {s : String} : a.text? = .ok s ↔ a.isWritable ∧ a.text = s := by
  unfold text?
  split <;> simp [*]

theorem Spellable.text?_eq {a : Address} (h : a.Spellable) : a.text? = .ok a.text :=
  text?_eq_ok.mpr ⟨h.isWritable, rfl⟩

/-- A row is short enough to write if its number, counted from one, has few enough digits. -/
theorem Natural.isWritable_iff_length {a : Address} (h : a.Natural) :
    a.isWritable ↔ (toString (a.row + 1)).length ≤ Number.maxDigits := by
  have hnumber : a.row + 1 = ((a.row.toNat + 1 : Nat) : Int) := by
    have := h.1
    omega
  rw [h.isWritable_iff, hnumber, ← String.length_toList, Number.toList_toString,
    Number.length_natChars_le_iff (by decide)]
  unfold Number.isWritable
  rw [Int.natAbs_natCast, decide_eq_true_eq]

/-- Two cells have no text in common. -/
theorem Natural.eq_of_text {a b : Address} (ha : a.Natural) (hb : b.Natural) (h : a.text = b.text) :
    a = b := by
  have hchars : letters (a.col.toNat + 1) ++ Number.natChars (a.row.toNat + 1) =
      letters (b.col.toNat + 1) ++ Number.natChars (b.row.toNat + 1) := by
    have hlists := congrArg String.toList h
    rwa [text, text, String.toList_ofList, String.toList_ofList, ha.chars_eq, hb.chars_eq] at hlists
  have hstops : ∀ n, Text.Stops isColumnLetter (Number.natChars n) := fun n =>
    Text.stops_of_forall fun c hc =>
      not_isColumnLetter_of_isAsciiDigit (Number.isAsciiDigit_of_mem_natChars hc)
  have hletters : letters (a.col.toNat + 1) = letters (b.col.toNat + 1) := by
    have hparts := congrArg (List.takeWhile isColumnLetter) hchars
    rwa [Text.takeWhile_append_of_stops (fun _ => isColumnLetter_of_mem_letters) (hstops _),
      Text.takeWhile_append_of_stops (fun _ => isColumnLetter_of_mem_letters) (hstops _)] at hparts
  rw [hletters, List.append_cancel_left_eq] at hchars
  have hcol := congrArg columnIndex hletters
  have hrow := congrArg Text.numeral hchars
  rw [columnIndex_letters, columnIndex_letters] at hcol
  rw [Number.numeral_natChars, Number.numeral_natChars] at hrow
  obtain ⟨hrow₀, hcol₀⟩ := ha
  obtain ⟨hrow₁, hcol₁⟩ := hb
  obtain ⟨row, col⟩ := a
  obtain ⟨row', col'⟩ := b
  dsimp only at *
  rw [mk.injEq]
  omega

/-- Columns and their letters are inverse, and so are cells and their texts. A text is read back as the cell
that it was made for, if its column has at most three letters and its row at most 4300 digits. What is read
from any text is such a cell, so that reading its own text gives the same again; and no two cells share a
text, however far to the right they are. -/
theorem text_inverse :
    (∀ cs : List Char, (∀ c ∈ cs, isColumnLetter c) → columnChars (columnIndex cs) = cs) ∧
    (∀ col : Int, 0 ≤ col → columnIndex (columnChars col) = col) ∧
    (∀ a : Address, a.Natural → (toString (a.row + 1)).length ≤ 4300 → a.col < 18278 →
      ∃ s, a.text? = .ok s ∧ ofText? s = .ok a) ∧
    (∀ (s : String) (a : Address), ofText? s = .ok a → ∃ t, a.text? = .ok t ∧ ofText? t = .ok a) ∧
    ∀ (a b : Address) (s : String), a.Natural → b.Natural →
      a.text? = .ok s → b.text? = .ok s → a = b := by
  refine ⟨fun cs => columnChars_columnIndex, fun col => columnIndex_columnChars,
    fun a ha hrow hcol => ?_, fun s a h => ?_, fun a b s ha hb has hbs => ?_⟩
  · have hspellable : a.Spellable := ⟨ha, hcol, ha.isWritable_iff_length.mpr hrow⟩
    exact ⟨a.text, hspellable.text?_eq, ofText?_text hspellable⟩
  · have hspellable := spellable_of_ofText? h
    exact ⟨a.text, hspellable.text?_eq, ofText?_text hspellable⟩
  · obtain ⟨-, ha'⟩ := text?_eq_ok.mp has
    obtain ⟨-, hb'⟩ := text?_eq_ok.mp hbs
    exact ha.eq_of_text hb (ha'.trans hb'.symm)

/-- Around the columns at which another letter is needed, and from a text with marks, in lower case and with
a zero in front. -/
theorem text_inverse_carried :
    columnChars (columnIndex ['Z', 'Z', 'Z']) = ['Z', 'Z', 'Z'] ∧
      columnIndex (columnChars 18278) = 18278 ∧
      (∃ s, (⟨41, 18277⟩ : Address).text? = .ok s ∧ ofText? s = .ok ⟨41, 18277⟩) ∧
      (∃ t, (⟨2, 26⟩ : Address).text? = .ok t ∧ ofText? t = .ok ⟨2, 26⟩) ∧
      (⟨0, 25⟩ : Address).text? ≠ (⟨0, 26⟩ : Address).text? := by
  obtain ⟨hletters, hcolumns, hcells, htexts, hunique⟩ := text_inverse
  refine ⟨hletters _ (by decide), hcolumns _ (by decide), ?_, ?_, fun h => ?_⟩
  · exact hcells _ (by decide) (by decide +kernel) (by decide)
  · exact htexts " $aa$03 " _ (eq_ok_of_toOption (by decide +kernel))
  · obtain ⟨s, hs, -⟩ := hcells ⟨0, 25⟩ (by decide) (by decide +kernel) (by decide)
    exact absurd (hunique _ _ s (by decide) (by decide) hs (h ▸ hs)) (by decide)

end Spreadsheet.Address
