import Spreadsheet.Data.Json
import Spreadsheet.Proofs.Number.Written

/-! Texts and numbers read back from JSON. -/
namespace Spreadsheet.Json

open Number (natChars isWritable Numeral)
open Text (isAsciiDigit Stops)

/-! ## Texts -/

theorem hexValue?_hexDigit (n : Nat) : hexValue? (Text.hexDigit n) = some (n % 16) := by
  have hdigits : ∀ d < 16, hexValue? (Nat.digitChar d) = some d := by decide
  exact hdigits (n % 16) (Nat.mod_lt n (by decide))

theorem unit?_hex {n : Nat} (h : n < 0x10000) (rest : List Char) :
    unit? (Text.hex 4 n ++ rest) = some (n, rest) := by
  simp only [Text.hex, unit?, hexValue?_hexDigit, List.nil_append, List.cons_append,
    Option.bind_eq_bind, Option.bind_some, Option.pure_def, Option.some.injEq, Prod.mk.injEq, and_true]
  omega

theorem toNat_lt (c : Char) : c.toNat < 0x110000 := by
  rcases c.valid with hlow | ⟨-, hhigh⟩
  · exact Nat.lt_trans hlow (by decide)
  · exact hhigh

theorem lowSurrogate?_unitEscape {n : Nat} (h : 0xDC00 ≤ n ∧ n ≤ 0xDFFF) (rest : List Char) :
    lowSurrogate? (unitEscape n ++ rest) = some (n, rest) := by
  rw [unitEscape, List.cons_append, List.cons_append, lowSurrogate?, unit?_hex (by omega)]
  dsimp only
  rw [if_pos (by simpa using h)]

/-- The two halves of a pair of surrogates make the character. -/
theorem unitChar_pair (c : Char) (h : 0x10000 ≤ c.toNat) (rest : List Char) :
    unitChar (0xD800 + (c.toNat - 0x10000) / 0x400)
      (unitEscape (0xDC00 + (c.toNat - 0x10000) % 0x400) ++ rest) = (c, rest) := by
  have hmost := toNat_lt c
  have hchar : 0x10000 + (0xD800 + (c.toNat - 0x10000) / 0x400 - 0xD800) * 0x400 +
      (0xDC00 + (c.toNat - 0x10000) % 0x400 - 0xDC00) = c.toNat := by omega
  unfold unitChar
  rw [if_pos (by simp only [Bool.and_eq_true, decide_eq_true_eq]; omega),
    lowSurrogate?_unitEscape (by omega)]
  dsimp only
  rw [hchar, Char.ofNat_toNat]

/-- No character is a surrogate. -/
theorem unitChar_toNat (c : Char) (rest : List Char) : unitChar c.toNat rest = (c, rest) := by
  have hvalid : c.toNat < 0xD800 ∨ 0xDFFF < c.toNat := by
    rcases c.valid with hlow | ⟨hhigh, -⟩
    · exact .inl hlow
    · exact .inr hhigh
  unfold unitChar
  rw [if_neg (by simp only [Bool.and_eq_true, decide_eq_true_eq]; omega),
    if_neg (by simp only [Bool.and_eq_true, decide_eq_true_eq]; omega), Char.ofNat_toNat]

theorem readText_cons (b c : Char) (budget read rest : List Char) :
    readText (b :: budget) read (c :: rest) =
      if c == '"' then .ok (String.ofList read.reverse, rest)
      else if c == '\\' then
        match rest with
        | [] => .error .malformed
        | e :: rest =>
          if e == 'u' then
            match unit? rest with
            | none => .error .malformed
            | some (n, rest) => readText budget ((unitChar n rest).1 :: read) (unitChar n rest).2
          else
            match shortEscape? e with
            | none => .error .malformed
            | some c => readText budget (c :: read) rest
      else if c.toNat < 0x20 then .error .malformed
      else readText budget (c :: read) rest := rfl

theorem readText_unitEscape {n : Nat} (h : n < 0x10000) (b : Char) (budget read rest : List Char) :
    readText (b :: budget) read (unitEscape n ++ rest) =
      readText budget ((unitChar n rest).1 :: read) (unitChar n rest).2 := by
  unfold unitEscape
  rw [List.cons_append, List.cons_append, readText_cons, if_neg (by decide), if_pos (by decide)]
  dsimp only
  rw [if_pos (by decide), unit?_hex h]

/-- However a character is written, reading it takes one step. -/
theorem readText_escapedChar (c b : Char) (budget read rest : List Char) :
    readText (b :: budget) read (escapedChar c ++ rest) = readText budget (c :: read) rest := by
  by_cases hshort : c ∈ ['"', '\\', '\n', '\r', '\t', '\x0c', '\x08']
  · simp only [List.mem_cons, List.not_mem_nil, or_false] at hshort
    rcases hshort with rfl | rfl | rfl | rfl | rfl | rfl | rfl <;> rfl
  simp only [List.mem_cons, List.not_mem_nil, or_false, not_or] at hshort
  obtain ⟨hquote, hbackslash, hfeed, hreturn, htab, hpage, hback⟩ := hshort
  unfold escapedChar
  simp only [beq_eq_false_iff_ne.mpr, hquote, hbackslash, hfeed, hreturn, htab, hpage, hback, ne_eq,
    not_false_eq_true, Bool.false_eq_true, if_false, Bool.and_eq_true, decide_eq_true_eq]
  split
  · rw [List.singleton_append, readText_cons, if_neg (by simpa using hquote),
      if_neg (by simpa using hbackslash), if_neg (by omega)]
  split
  · rename_i h
    rw [readText_unitEscape h, unitChar_toNat]
  · have hmost := toNat_lt c
    rw [List.append_assoc, readText_unitEscape (by omega), unitChar_pair c (by omega)]

theorem readText_flatMap (cs rest : List Char) {budget read : List Char} (h : cs.length < budget.length) :
    readText budget read (cs.flatMap escapedChar ++ '"' :: rest) =
      .ok (String.ofList (read.reverse ++ cs), rest) := by
  induction cs generalizing budget read with
  | nil =>
    obtain ⟨b, budget, rfl⟩ := List.exists_cons_of_length_pos h
    rw [List.flatMap_nil, List.nil_append, readText_cons, if_pos (beq_self_eq_true _), List.append_nil]
  | cons c cs ih =>
    obtain ⟨b, budget, rfl⟩ := List.exists_cons_of_length_pos (Nat.lt_of_le_of_lt (Nat.zero_le _) h)
    rw [List.length_cons, List.length_cons] at h
    rw [List.flatMap_cons, List.append_assoc, readText_escapedChar, ih (Nat.lt_of_succ_lt_succ h),
      List.reverse_cons, List.append_assoc, List.singleton_append]

theorem escapedChar_ne_nil (c : Char) : escapedChar c ≠ [] := by
  unfold escapedChar unitEscape
  repeat' split
  all_goals nofun

theorem length_le_flatMap (cs : List Char) : cs.length ≤ (cs.flatMap escapedChar).length := by
  induction cs with
  | nil => exact Nat.le_refl 0
  | cons c cs ih =>
    have hpos := List.length_pos_iff.mpr (escapedChar_ne_nil c)
    rw [List.flatMap_cons, List.length_append, List.length_cons]
    omega

theorem textChars_append (s : String) (rest : List Char) :
    textChars s ++ rest = '"' :: (s.toList.flatMap escapedChar ++ '"' :: rest) := by
  unfold textChars
  rw [List.cons_append, List.append_assoc, List.singleton_append]

theorem readText_textChars (s : String) (rest : List Char) :
    readText (s.toList.flatMap escapedChar ++ '"' :: rest) []
      (s.toList.flatMap escapedChar ++ '"' :: rest) = .ok (s, rest) := by
  have hlength := length_le_flatMap s.toList
  rw [readText_flatMap _ _ (by rw [List.length_append, List.length_cons]; omega)]
  exact congrArg (fun s => Except.ok (s, rest)) String.ofList_toList

/-! ## Numbers -/

/-- Whether a character after the digits of a number would be read as part of the number. -/
def continuesNumber (c : Char) : Bool := isAsciiDigit c || c == '.' || c == 'e' || c == 'E'

theorem stops_isAsciiDigit {rest : List Char} (h : Stops continuesNumber rest) :
    Stops isAsciiDigit rest := by
  intro c hc
  have hall := h c hc
  simp only [continuesNumber, Bool.or_eq_false_iff] at hall
  exact hall.1.1.1

theorem stops_point {rest : List Char} (h : Stops continuesNumber rest) : Stops (· == '.') rest := by
  intro c hc
  have hall := h c hc
  simp only [continuesNumber, Bool.or_eq_false_iff] at hall
  exact hall.1.1.2

theorem wholePart_append {whole rest : List Char} (hdigits : ∀ c ∈ whole, isAsciiDigit c)
    (hne : whole ≠ []) (hzero : ∀ digits, whole = '0' :: digits → digits = [])
    (hrest : Stops isAsciiDigit rest) : wholePart (whole ++ rest) = (whole, rest) := by
  unfold wholePart
  split
  · rename_i tail heq
    obtain ⟨first, digits, rfl⟩ := List.exists_cons_of_ne_nil hne
    rw [List.cons_append, List.cons.injEq] at heq
    obtain ⟨rfl, rfl⟩ := heq
    rw [hzero digits rfl, List.nil_append]
  · rw [Text.takeWhile_append_of_stops hdigits hrest, Text.dropWhile_append_of_stops hdigits hrest]

theorem fractionPart_of_stops {rest : List Char} (h : Stops (· == '.') rest) :
    fractionPart rest = ([], rest) := by
  unfold fractionPart
  split
  · cases Text.stops_cons.mp h
  · rfl

theorem exponentPart_of_stops {rest : List Char} (h : Stops continuesNumber rest) :
    exponentPart rest = ([], rest) := by
  unfold exponentPart
  split
  · rfl
  · rename_i e tail
    have hmark := Text.stops_cons.mp h
    simp only [continuesNumber, Bool.or_eq_false_iff] at hmark
    rw [hmark.1.2, hmark.2]
    rfl

theorem readNumber_digit {c : Char} (h : isAsciiDigit c) (cs : List Char) :
    readNumber (c :: cs) = readUnsigned false (c :: cs) := by
  unfold readNumber
  split
  · rename_i heq
    cases heq
    exact absurd h (by decide)
  · rfl

/-- Digits behind a sign are read as the whole number that they denote. -/
theorem readUnsigned_natChars {n : Nat} (h : isWritable n) (negative : Bool) {rest : List Char}
    (hrest : Stops continuesNumber rest) :
    readUnsigned negative (natChars n ++ rest) = .ok (.int (Number.signed negative n), rest) := by
  have hsome : (natChars n).isEmpty = false := List.isEmpty_eq_false_iff.mpr (Number.natChars_ne_nil n)
  have hwhole : wholePart (natChars n ++ rest) = (natChars n, rest) :=
    wholePart_append (fun _ => Number.isAsciiDigit_of_mem_natChars) (Number.natChars_ne_nil n)
      (fun _ => Number.eq_nil_of_natChars) (stops_isAsciiDigit hrest)
  unfold readUnsigned
  simp only [hwhole, fractionPart_of_stops (stops_point hrest), exponentPart_of_stops hrest, hsome,
    Number.natOfDigits_natChars h]
  rfl

section Fraction

variable (n : Numeral) {rest : List Char}

theorem stops_exponentPart {p : Char → Bool} (hmark : p 'e' = false) (hrest : Stops p rest) :
    Stops p (n.exponentPart ++ rest) := by
  unfold Numeral.exponentPart
  cases n.exponent with
  | none => exact hrest
  | some e => exact Text.stops_cons.mpr hmark

theorem fractionPart_append (hrest : Stops continuesNumber rest) :
    fractionPart (n.fractionChars ++ (n.exponentPart ++ rest)) =
      (n.fractionChars, n.exponentPart ++ rest) := by
  unfold Numeral.fractionChars
  by_cases hnone : n.fraction = []
  · rw [if_pos hnone]
    exact fractionPart_of_stops (stops_exponentPart n rfl (stops_point hrest))
  · have hstops := stops_exponentPart n rfl (stops_isAsciiDigit hrest)
    rw [if_neg hnone, List.cons_append, fractionPart,
      Text.takeWhile_append_of_stops n.isAsciiDigit_fraction hstops,
      Text.dropWhile_append_of_stops n.isAsciiDigit_fraction hstops,
      if_neg (by simpa using hnone)]

theorem exponentPart_append (hrest : Stops continuesNumber rest) :
    exponentPart (n.exponentPart ++ rest) = (n.exponentPart, rest) := by
  unfold Numeral.exponentPart
  cases n.exponent with
  | none => exact exponentPart_of_stops hrest
  | some e =>
    obtain ⟨digits, hchars, hne, hdigits, -⟩ := Numeral.exponentChars_eq e
    have hstops := stops_isAsciiDigit hrest
    have hsome : digits.isEmpty = false := List.isEmpty_eq_false_iff.mpr hne
    dsimp only
    rw [hchars]
    by_cases hnegative : e < 0
    · simp [exponentPart, signPart, hnegative, hsome, Text.takeWhile_append_of_stops hdigits hstops,
        Text.dropWhile_append_of_stops hdigits hstops]
    · simp [exponentPart, signPart, hnegative, hsome, Text.takeWhile_append_of_stops hdigits hstops,
        Text.dropWhile_append_of_stops hdigits hstops]

theorem stops_fraction (hrest : Stops isAsciiDigit rest) :
    Stops isAsciiDigit (n.fractionChars ++ (n.exponentPart ++ rest)) := by
  unfold Numeral.fractionChars
  split
  · exact stops_exponentPart n rfl hrest
  · exact Text.stops_cons.mpr rfl

/-- A tidy numeral with a fraction or an exponent is read as the float that it denotes. -/
theorem readUnsigned_numeral (htidy : n.Tidy) (hmark : n.fraction ≠ [] ∨ n.exponent ≠ none)
    (negative : Bool) (hrest : Stops continuesNumber rest) :
    readUnsigned negative (n.chars ++ rest) =
      .ok (.float ({ n.decimal with negative } : Number.Decimal).toBinary, rest) := by
  have hdigits := stops_fraction n (stops_isAsciiDigit hrest)
  have hwhole : wholePart (n.chars ++ rest) = (n.whole, n.fractionChars ++ (n.exponentPart ++ rest)) := by
    rw [Numeral.chars, List.append_assoc, List.append_assoc]
    exact wholePart_append n.isAsciiDigit_whole n.whole_ne_nil htidy.eq_nil hdigits
  have hsome : n.whole.isEmpty = false := List.isEmpty_eq_false_iff.mpr n.whole_ne_nil
  have hfloat : (n.fractionChars.isEmpty && n.exponentPart.isEmpty) = false := by
    unfold Numeral.fractionChars Numeral.exponentPart
    obtain hfraction | hexponent := hmark
    · rw [if_neg hfraction]
      rfl
    · obtain ⟨e, he⟩ := Option.ne_none_iff_exists'.mp hexponent
      rw [he]
      exact Bool.and_false _
  have hdecimal : Number.Decimal.ofChars? (n.whole ++ n.fractionChars ++ n.exponentPart) =
      some n.decimal := by
    rw [List.append_assoc]
    exact n.ofChars?_chars
  unfold readUnsigned
  simp only [hwhole, fractionPart_append n hrest, exponentPart_append n hrest, hsome, hfloat, hdecimal]
  rfl

end Fraction

/-- A finite float stands behind its sign as a tidy numeral, which denotes it. -/
theorem exists_floatChars (m : Number.Magnitude) : ∃ n : Numeral,
    n.Tidy ∧ (n.fraction ≠ [] ∨ n.exponent ≠ none) ∧ ∀ negative,
      floatChars (.finite negative m) = (if negative then '-' :: n.chars else n.chars) ∧
        ({ n.decimal with negative } : Number.Decimal).toBinary = .finite negative m := by
  obtain ⟨n, hchars, hmark, hvalue, htidy⟩ := Number.Binary64.chars_finite m
  refine ⟨n, htidy, hmark, fun negative => ⟨?_, Number.Decimal.toBinary_signed hvalue negative⟩⟩
  cases negative with
  | false => exact hchars
  | true => exact (Number.Binary64.chars_negative m).trans (congrArg _ hchars)

end Spreadsheet.Json
