import Spreadsheet.Proofs.Data.Json

/-! Texts, numbers and words of JSON that were cut off, with another text behind the cut, or none. A reader
that is caught in the middle of one finds nothing, or stops where nothing can go on. -/
namespace Spreadsheet.Json

open Number (natChars isWritable maxDigits Numeral)
open Text (isAsciiDigit Stops)

/-! ## Cuts -/

/-- Whether a text is a part of another one from its start on, but not all of it. -/
def Cut (part whole : List Char) : Prop := ∃ c rest, whole = part ++ c :: rest

variable {part whole front back rest : List Char} {c : Char}

theorem not_cut_nil : ¬Cut part [] := by
  rintro ⟨c, rest, h⟩
  exact absurd h (by simp)

theorem cut_cons : Cut part (c :: rest) ↔ part = [] ∨ ∃ tail, part = c :: tail ∧ Cut tail rest := by
  constructor
  · rintro ⟨d, after, h⟩
    cases part with
    | nil => exact .inl rfl
    | cons e tail =>
      rw [List.cons_append, List.cons.injEq] at h
      obtain ⟨rfl, h⟩ := h
      exact .inr ⟨tail, rfl, d, after, h⟩
  · rintro (rfl | ⟨tail, rfl, d, after, rfl⟩)
    · exact ⟨c, rest, rfl⟩
    · exact ⟨d, after, rfl⟩

theorem cut_append : Cut part (front ++ back) ↔
    Cut part front ∨ ∃ tail, part = front ++ tail ∧ Cut tail back := by
  induction front generalizing part with
  | nil => simp [not_cut_nil]
  | cons c front ih =>
    rw [List.cons_append, cut_cons, cut_cons]
    constructor
    · rintro (rfl | ⟨tail, rfl, htail⟩)
      · exact .inl (.inl rfl)
      · obtain h | ⟨after, rfl, h⟩ := ih.mp htail
        · exact .inl (.inr ⟨tail, rfl, h⟩)
        · exact .inr ⟨after, rfl, h⟩
    · rintro ((rfl | ⟨tail, rfl, h⟩) | ⟨after, rfl, h⟩)
      · exact .inl rfl
      · exact .inr ⟨tail, rfl, ih.mpr (.inl h)⟩
      · exact .inr ⟨_, rfl, ih.mpr (.inr ⟨after, rfl, h⟩)⟩

theorem Cut.subset (h : Cut part whole) : part ⊆ whole := by
  obtain ⟨c, rest, rfl⟩ := h
  exact List.subset_append_left _ _

/-! ## Readers -/

/-- Whether nothing can go on here inside a list or a mapping. -/
def Hanging (cs : List Char) : Prop := ∀ c ∈ (skip cs).head?, c ∉ [',', ':', ']', '\x7d']

/-- Whether a reader finds nothing, or stops where nothing can go on. -/
def Hopeless {α : Type} : Result α → Prop
  | .ok (_, rest) => Hanging rest
  | .error fault => fault = .malformed

/-- A text that may stand behind a cut. It opens a mapping, if it is not empty, and whoever is in the middle
of something else does not get through it. -/
structure Foreign (cs : List Char) : Prop where
  opens : ∀ c ∈ cs.head?, c = '\x7b'
  value : ∀ fuel, Hopeless (readValue fuel cs)
  text : ∀ budget read, Hopeless (readText budget read cs)

theorem hanging_nil : Hanging [] := fun _ h => by cases h

theorem hanging_cons (hspace : isSpace c = false) (hc : c ∉ [',', ':', ']', '\x7d']) :
    Hanging (c :: rest) := by
  unfold Hanging
  rw [skip_of_stops (Text.stops_cons.mpr hspace)]
  intro d hd
  cases hd
  exact hc

theorem hopeless_map {α β : Type} {r : Result α} {f : α × List Char → β × List Char}
    (h : Hopeless r) (hf : ∀ p, (f p).2 = p.2) : Hopeless (r.map f) := by
  match r, h with
  | .ok (a, rest), h =>
    change Hanging (f (a, rest)).2
    rwa [hf]
  | .error fault, h => exact h

namespace Foreign

variable {cs : List Char}

theorem cases (h : Foreign cs) : cs = [] ∨ ∃ tail, cs = '\x7b' :: tail := by
  cases cs with
  | nil => exact .inl rfl
  | cons c tail =>
    obtain rfl := h.opens c rfl
    exact .inr ⟨tail, rfl⟩

theorem stops (h : Foreign cs) {p : Char → Bool} (hp : p '\x7b' = false) : Stops p cs := by
  intro c hc
  rw [h.opens c hc, hp]

theorem hanging (h : Foreign cs) : Hanging cs := by
  obtain rfl | ⟨tail, rfl⟩ := h.cases
  · exact hanging_nil
  · exact hanging_cons rfl (by decide)

theorem nil : Foreign [] := by
  refine ⟨nofun, fun fuel => ?_, fun budget read => ?_⟩
  · cases fuel <;> rfl
  · cases budget <;> rfl

end Foreign

/-! ## Texts -/

section Texts

variable {cs budget read : List Char}

theorem readText_budget (h : ∀ b budget', budget = b :: budget' → Hopeless (readText budget read cs)) :
    Hopeless (readText budget read cs) := by
  cases budget with
  | nil => rfl
  | cons b budget => exact h b budget rfl

theorem unit?_brace (h : '\x7b' ∈ cs.take 4 ∨ cs.length < 4) : unit? cs = none := by
  match cs with
  | [] | [_] | [_, _] | [_, _, _] => rfl
  | a :: b :: c :: d :: rest =>
    have hbrace : hexValue? '\x7b' = none := by decide
    simp only [List.take_succ_cons, List.take_zero, List.mem_cons, List.not_mem_nil, or_false,
      List.length_cons] at h
    obtain (rfl | rfl | rfl | rfl) | h := h
    · simp [unit?, hbrace]
    · simp [unit?, hbrace]
    · simp [unit?, hbrace]
    · simp [unit?, hbrace]
    · omega

/-- A unit that was cut off is none. -/
theorem unit?_cut {n : Nat} (hcut : Cut part (Text.hex 4 n)) (hcs : Foreign cs) :
    unit? (part ++ cs) = none := by
  apply unit?_brace
  simp only [Text.hex, List.nil_append, List.cons_append, cut_cons, not_cut_nil, and_false,
    exists_false, or_false] at hcut
  obtain rfl | ⟨tail, rfl⟩ := hcs.cases
  · right
    obtain rfl | ⟨-, rfl, rfl | ⟨-, rfl, rfl | ⟨-, rfl, rfl⟩⟩⟩ := hcut <;> simp
  · left
    obtain rfl | ⟨-, rfl, rfl | ⟨-, rfl, rfl | ⟨-, rfl, rfl⟩⟩⟩ := hcut <;> simp

theorem readText_cut_unit {n : Nat} (hcut : Cut part (unitEscape n)) (hcs : Foreign cs) :
    Hopeless (readText budget read (part ++ cs)) := by
  refine readText_budget fun b budget' hbudget => ?_
  rw [hbudget]
  rw [unitEscape, cut_cons] at hcut
  obtain rfl | ⟨part, rfl, hcut⟩ := hcut
  · exact hcs.text _ _
  rw [cut_cons] at hcut
  obtain rfl | ⟨part, rfl, hcut⟩ := hcut
  · obtain rfl | ⟨tail, rfl⟩ := hcs.cases <;> rfl
  · rw [List.cons_append, List.cons_append, readText_cons, if_neg (by decide), if_pos (by decide)]
    dsimp only
    rw [if_pos (by decide), unit?_cut hcut hcs]
    rfl

theorem lowSurrogate?_cut {n : Nat} (hcut : Cut part (unitEscape n)) (hcs : Foreign cs) :
    lowSurrogate? (part ++ cs) = none := by
  rw [unitEscape, cut_cons] at hcut
  obtain rfl | ⟨part, rfl, hcut⟩ := hcut
  · obtain rfl | ⟨tail, rfl⟩ := hcs.cases <;> rfl
  rw [cut_cons] at hcut
  obtain rfl | ⟨part, rfl, hcut⟩ := hcut
  · obtain rfl | ⟨tail, rfl⟩ := hcs.cases <;> rfl
  · rw [List.cons_append, List.cons_append, lowSurrogate?, unit?_cut hcut hcs]

theorem unitChar_of_lowSurrogate? (n : Nat) (h : lowSurrogate? cs = none) : (unitChar n cs).2 = cs := by
  unfold unitChar
  rw [h]
  repeat' split
  all_goals first | rfl | contradiction

theorem readText_cut_char {c : Char} (hcut : Cut part (escapedChar c)) (hcs : Foreign cs) :
    Hopeless (readText budget read (part ++ cs)) := by
  have hshort : ∀ d, Cut part ['\\', d] → Hopeless (readText budget read (part ++ cs)) := by
    intro d hd
    simp only [cut_cons, not_cut_nil, and_false, exists_false, or_false] at hd
    obtain rfl | ⟨-, rfl, rfl⟩ := hd
    · exact hcs.text _ _
    · refine readText_budget fun b budget' hbudget => ?_
      rw [hbudget]
      obtain rfl | ⟨tail, rfl⟩ := hcs.cases <;> rfl
  unfold escapedChar at hcut
  iterate 7
    split at hcut
    · exact hshort _ hcut
  split at hcut
  · -- a character that stands for itself cannot be cut
    simp only [cut_cons, not_cut_nil, and_false, exists_false, or_false] at hcut
    rw [hcut]
    exact hcs.text _ _
  split at hcut
  · exact readText_cut_unit hcut hcs
  · rename_i hbig
    have hmost := toNat_lt c
    obtain h | ⟨tail, rfl, h⟩ := cut_append.mp hcut
    · exact readText_cut_unit h hcs
    · refine readText_budget fun b budget' hbudget => ?_
      rw [hbudget, List.append_assoc, readText_unitEscape (by omega),
        unitChar_of_lowSurrogate? _ (lowSurrogate?_cut h hcs)]
      exact readText_cut_unit h hcs

/-- A text that was cut off goes on into what stands behind it. -/
theorem readText_cut {s : List Char} (hcut : Cut part (s.flatMap escapedChar ++ ['"']))
    (hcs : Foreign cs) : Hopeless (readText budget read (part ++ cs)) := by
  induction s generalizing part budget read with
  | nil =>
    obtain rfl | ⟨tail, rfl, h⟩ := cut_cons.mp hcut
    · exact hcs.text budget read
    · exact absurd h not_cut_nil
  | cons c s ih =>
    rw [List.flatMap_cons, List.append_assoc, cut_append] at hcut
    obtain h | ⟨tail, rfl, h⟩ := hcut
    · exact readText_cut_char h hcs
    · refine readText_budget fun b budget' hbudget => ?_
      rw [hbudget, List.append_assoc, readText_escapedChar]
      exact ih h

end Texts

/-! ## Numbers and words -/

/-- Whether a character can be part of a number without its sign. -/
def inNumeral (c : Char) : Bool := continuesNumber c || c == '+' || c == '-'

section Numbers

variable {cs used fraction exponent : List Char}

theorem isAsciiDigit_of_mem_takeWhile (h : c ∈ cs.takeWhile isAsciiDigit) : isAsciiDigit c :=
  List.all_eq_true.mp List.all_takeWhile c h

theorem inNumeral_of_isAsciiDigit (h : isAsciiDigit c) : inNumeral c := by
  simp [inNumeral, continuesNumber, h]

theorem inNumeral_of_mem_chars (n : Numeral) : ∀ c ∈ n.chars, inNumeral c := by
  have hdigits : ∀ {cs : List Char}, (∀ c ∈ cs, isAsciiDigit c) → ∀ c ∈ cs, inNumeral c :=
    fun h c hc => inNumeral_of_isAsciiDigit (h c hc)
  unfold Numeral.chars Numeral.fractionChars Numeral.exponentPart
  simp only [List.forall_mem_append]
  refine ⟨hdigits n.isAsciiDigit_whole, ?_, ?_⟩
  · split
    · exact List.forall_mem_nil _
    · exact List.forall_mem_cons.mpr ⟨by decide, hdigits n.isAsciiDigit_fraction⟩
  · split
    · exact List.forall_mem_nil _
    · rename_i e _
      obtain ⟨digits, hchars, -, hall, -⟩ := Numeral.exponentChars_eq e
      rw [hchars]
      refine List.forall_mem_cons.mpr ⟨by decide, List.forall_mem_cons.mpr ⟨?_, hdigits hall⟩⟩
      split <;> decide

/-! What a part of a number takes is a part of the text, and only of characters of numbers. -/

theorem wholePart_spec (cs : List Char) : cs = (wholePart cs).1 ++ (wholePart cs).2 ∧
    (∀ c ∈ (wholePart cs).1, inNumeral c) ∧ (wholePart cs).1 <+: cs.takeWhile isAsciiDigit := by
  unfold wholePart
  split
  · refine ⟨rfl, by simp; decide, ?_⟩
    rw [List.takeWhile_cons_of_pos (by decide)]
    exact List.prefix_append ['0'] _
  · exact ⟨List.takeWhile_append_dropWhile.symm,
      fun c hc => inNumeral_of_isAsciiDigit (isAsciiDigit_of_mem_takeWhile hc), List.prefix_refl _⟩

theorem fractionPart_spec (cs : List Char) : cs = (fractionPart cs).1 ++ (fractionPart cs).2 ∧
    ∀ c ∈ (fractionPart cs).1, inNumeral c := by
  unfold fractionPart
  split
  · dsimp only
    split
    · simp
    · refine ⟨congrArg ('.' :: ·) List.takeWhile_append_dropWhile.symm, ?_⟩
      simp only [List.forall_mem_cons]
      exact ⟨by decide, fun c hc => inNumeral_of_isAsciiDigit (isAsciiDigit_of_mem_takeWhile hc)⟩
  · simp

theorem signPart_spec (cs : List Char) : cs = (signPart cs).1 ++ (signPart cs).2 ∧
    ∀ c ∈ (signPart cs).1, inNumeral c := by
  unfold signPart
  split
  · exact ⟨rfl, by simp; decide⟩
  · exact ⟨rfl, by simp; decide⟩
  · exact ⟨rfl, List.forall_mem_nil _⟩

theorem exponentPart_spec (cs : List Char) : cs = (exponentPart cs).1 ++ (exponentPart cs).2 ∧
    ∀ c ∈ (exponentPart cs).1, inNumeral c := by
  unfold exponentPart
  split
  · exact ⟨rfl, List.forall_mem_nil _⟩
  · rename_i e rest
    obtain ⟨hrest, hall⟩ := signPart_spec rest
    dsimp only
    split
    · rename_i hmark
      simp only [Bool.and_eq_true, Bool.or_eq_true, beq_iff_eq] at hmark
      refine ⟨?_, ?_⟩
      · rw [List.cons_append, List.append_assoc, List.takeWhile_append_dropWhile, ← hrest]
      · have he : inNumeral e := by obtain ⟨rfl | rfl, -⟩ := hmark <;> decide
        simp only [List.forall_mem_cons, List.forall_mem_append]
        exact ⟨he, hall, fun c hc => inNumeral_of_isAsciiDigit (isAsciiDigit_of_mem_takeWhile hc)⟩
    · exact ⟨rfl, List.forall_mem_nil _⟩

theorem hanging_append (hpart : ∀ c ∈ part, inNumeral c) (hcs : Foreign cs) : Hanging (part ++ cs) := by
  cases part with
  | nil => exact hcs.hanging
  | cons c part =>
    have hc : inNumeral c := hpart c List.mem_cons_self
    have hne : ∀ d, inNumeral d = false → c ≠ d := by
      rintro d hd rfl
      rw [hc] at hd
      contradiction
    refine hanging_cons ?_ ?_
    · simp [isSpace, hne ' ' (by decide), hne '\t' (by decide), hne '\n' (by decide),
        hne '\r' (by decide)]
    · simp [hne ',' (by decide), hne ':' (by decide), hne ']' (by decide), hne '\x7d' (by decide)]

/-- A number ends before the text behind the cut. -/
theorem hanging_of_used (hpart : ∀ c ∈ part, inNumeral c) (hcs : Foreign cs)
    (h : part ++ cs = used ++ rest) (hused : ∀ c ∈ used, inNumeral c) : Hanging rest := by
  obtain ⟨after, rfl, hbehind⟩ | ⟨after, rfl, rfl⟩ := List.append_eq_append_iff.mp h
  · cases after with
    | nil =>
      rw [List.nil_append] at hbehind
      exact hbehind ▸ hcs.hanging
    | cons c after =>
      have hc : inNumeral c := hused c (by simp)
      rw [hcs.opens c (by rw [hbehind]; rfl)] at hc
      contradiction
  · exact hanging_append (fun c hc => hpart c (List.mem_append_right _ hc)) hcs

theorem takeWhile_append_of_foreign (hcs : Foreign cs) :
    (part ++ cs).takeWhile isAsciiDigit = part.takeWhile isAsciiDigit := by
  rw [List.takeWhile_append, Text.takeWhile_of_stops (hcs.stops rfl), List.append_nil]
  split
  · rename_i hlength
    exact ((List.takeWhile_prefix _).eq_of_length hlength).symm
  · rfl

theorem length_takeWhile_le (part rest : List Char) :
    (part.takeWhile isAsciiDigit).length ≤ ((part ++ rest).takeWhile isAsciiDigit).length := by
  rw [List.takeWhile_append]
  split
  · rw [List.length_append]
    omega
  · exact Nat.le_refl _

/-- A number that was cut off is read up to the cut at most. -/
theorem readUnsigned_cut (negative : Bool) (hpart : ∀ c ∈ part, inNumeral c)
    (hshort : (part.takeWhile isAsciiDigit).length ≤ maxDigits) (hcs : Foreign cs) :
    Hopeless (readUnsigned negative (part ++ cs)) := by
  obtain ⟨hwhole, hwhole', hdigits⟩ := wholePart_spec (part ++ cs)
  have hlength := hdigits.length_le
  rw [takeWhile_append_of_foreign hcs] at hlength
  unfold readUnsigned
  generalize wholePart (part ++ cs) = first at *
  obtain ⟨whole, rest₁⟩ := first
  obtain ⟨hfraction, hfraction'⟩ := fractionPart_spec rest₁
  generalize hsecond : fractionPart rest₁ = second at *
  obtain ⟨fraction, rest₂⟩ := second
  obtain ⟨hexponent, hexponent'⟩ := exponentPart_spec rest₂
  generalize hthird : exponentPart rest₂ = third at *
  obtain ⟨exponent, rest⟩ := third
  dsimp only at *
  have hhanging : Hanging rest := by
    refine @hanging_of_used part rest cs (whole ++ (fraction ++ exponent)) hpart hcs ?_ ?_
    · rw [hwhole, hfraction, hexponent, List.append_assoc, List.append_assoc]
    · simp only [List.forall_mem_append]
      exact ⟨hwhole', hfraction', hexponent'⟩
  simp only [hsecond, hthird]
  split
  · rfl
  split
  · rw [Number.natOfDigits, if_neg (by omega)]
    exact hhanging
  · split
    · exact hhanging
    · rfl

end Numbers

theorem readValue_cut_number {body cs : List Char} (negative : Bool)
    (hfirst : ∃ c rest, body = c :: rest ∧ isAsciiDigit c) (hbody : ∀ c ∈ body, inNumeral c)
    (hshort : (body.takeWhile isAsciiDigit).length ≤ maxDigits)
    (hcut : Cut part (if negative then '-' :: body else body)) (hne : part ≠ []) (hcs : Foreign cs)
    (fuel : Nat) : Hopeless (readValue (fuel + 1) (part ++ cs)) := by
  obtain ⟨c, digits, rfl, hc⟩ := hfirst
  -- what is left of the digits, if any of them is
  have hdigits : ∀ tail, Cut tail digits →
      Hopeless (readUnsigned negative (c :: (tail ++ cs))) := by
    intro tail htail
    have hsub : c :: tail ⊆ c :: digits := List.cons_subset_cons c htail.subset
    refine @readUnsigned_cut (c :: tail) cs negative (fun d hd => hbody d (hsub hd)) ?_ hcs
    obtain ⟨d, rest, rfl⟩ := htail
    exact Nat.le_trans (length_takeWhile_le (c :: tail) (d :: rest)) hshort
  cases negative with
  | false =>
    obtain rfl | ⟨tail, rfl, htail⟩ := cut_cons.mp hcut
    · contradiction
    · rw [List.cons_append]
      have hread : readValue (fuel + 1) (c :: (tail ++ cs)) = readUnsigned false (c :: (tail ++ cs)) :=
        readValue_digit fuel hc false
      rw [hread]
      exact hdigits tail htail
  | true =>
    obtain rfl | ⟨behind, rfl, hbehind⟩ := cut_cons.mp hcut
    · contradiction
    obtain rfl | ⟨tail, rfl, htail⟩ := cut_cons.mp hbehind
    · obtain rfl | ⟨tail, rfl⟩ := hcs.cases <;> rfl
    · rw [List.cons_append, List.cons_append]
      have hread : readValue (fuel + 1) ('-' :: c :: (tail ++ cs)) = readUnsigned true (c :: (tail ++ cs)) :=
        readValue_digit fuel hc true
      rw [hread]
      exact hdigits tail htail

theorem readValue_cut_word {word cs : List Char} (hword : word ∈ words.map Prod.fst)
    (hcut : Cut part word) (hne : part ≠ []) (hcs : Foreign cs) (fuel : Nat) :
    Hopeless (readValue (fuel + 1) (part ++ cs)) := by
  have hwords : word ∈ [['n', 'u', 'l', 'l'], ['t', 'r', 'u', 'e'], ['f', 'a', 'l', 's', 'e'],
    ['N', 'a', 'N'], ['I', 'n', 'f', 'i', 'n', 'i', 't', 'y'],
    ['-', 'I', 'n', 'f', 'i', 'n', 'i', 't', 'y']] := hword
  simp only [List.mem_cons, List.not_mem_nil, or_false] at hwords
  -- at every cut there is no word, and no number either
  obtain rfl | rfl | rfl | rfl | rfl | rfl := hwords
  all_goals
    repeat
      rw [cut_cons] at hcut
      obtain rfl | ⟨_, rfl, hcut⟩ := hcut
      · first
        | contradiction
        | obtain rfl | ⟨tail, rfl⟩ := hcs.cases <;> rfl
    exact absurd hcut not_cut_nil

end Spreadsheet.Json
