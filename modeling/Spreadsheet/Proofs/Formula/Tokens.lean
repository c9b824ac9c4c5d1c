import Spreadsheet.Formula.Parser
import Spreadsheet.Formula.Printer
import Spreadsheet.Proofs.Address.Spelling
import Spreadsheet.Proofs.Number.Written

/-! Tokens of canonical text. Each piece that is printed is found again as one token of its class, where
what follows cannot be taken for more of it. -/
namespace Spreadsheet.Formula

open Text (isAsciiDigit isAsciiLetter Stops)
open Number (Numeral)

namespace Terminal

/-- No token that was printed before this text goes on in it. -/
structure Ends (rest : List Char) : Prop where
  endsWord : endsWord rest
  no_quote : rest.head? ≠ some '"'

theorem ends_nil : Ends [] := ⟨rfl, by simp⟩

theorem Ends.stops {p : Char → Bool} {rest : List Char} (h : Ends rest)
    (hp : ∀ c, p c → isNameRest c) : Stops p rest := by
  cases rest with
  | nil => exact Text.stops_nil p
  | cons c rest =>
    rw [Text.stops_cons, Bool.eq_false_iff]
    intro hc
    have hend := h.endsWord
    simp [Terminal.endsWord, hp c hc] at hend

theorem isNameRest_of_isAsciiDigit {c : Char} (h : isAsciiDigit c) : isNameRest c := by
  unfold isNameRest
  rw [h]
  simp

theorem Ends.stops_isAsciiDigit {rest : List Char} (h : Ends rest) : Stops isAsciiDigit rest :=
  h.stops fun _ => isNameRest_of_isAsciiDigit

theorem Ends.head_ne {rest : List Char} (h : Ends rest) {c : Char} (hc : isNameRest c) :
    rest.head? ≠ some c := by
  intro hhead
  have hstop := h.stops (p := isNameRest) (fun _ h => h) c hhead
  rw [hc] at hstop
  contradiction

/-! ## Runs -/

theorem run_append {p : Char → Bool} {cs rest : List Char} (hcs : ∀ c ∈ cs, p c)
    (h : Stops p rest) : run p (cs ++ rest) = cs.length := by
  unfold run
  rw [Text.takeWhile_append_of_stops hcs h]

theorem run_of_stops {p : Char → Bool} {rest : List Char} (h : Stops p rest) : run p rest = 0 := by
  unfold run
  rw [Text.takeWhile_of_stops h, List.length_nil]

theorem wordExtent_append {cs rest : List Char} (h : Ends rest) :
    wordExtent (cs ++ rest) cs.length = cs.length := by
  unfold wordExtent
  rw [List.drop_left, if_pos h.endsWord]

/-! ## Where no token of a class starts -/

theorem rowColumnExtent_cons {c : Char} (hupper : c ≠ 'R') (hlower : c ≠ 'r') (rest : List Char) :
    rowColumnExtent (c :: rest) = 0 := by
  unfold rowColumnExtent
  dsimp only
  split
  · rfl
  · simp [hupper, hlower]

theorem startsWith_cons {letter c : Char} (h : isCaseOf letter c = false) (spelling rest : List Char) :
    startsWith (letter :: spelling) (c :: rest) = false := by
  unfold startsWith
  rw [h, Bool.false_and]

theorem errorExtent_cons {c : Char} (h : c ≠ '#') (rest : List Char) : errorExtent (c :: rest) = 0 := by
  have hcase : isCaseOf '#' c = false := by
    simp [isCaseOf, h]
  have hnone : errorCodes.find? (startsWith · (c :: rest)) = none := by
    simp [errorCodes, startsWith_cons hcase]
  unfold errorExtent
  rw [hnone]

theorem boolExtent_cons {c : Char} (htrue : isCaseOf 'T' c = false) (hfalse : isCaseOf 'F' c = false)
    (rest : List Char) : boolExtent (c :: rest) = 0 := by
  unfold boolExtent
  rw [startsWith_cons htrue, startsWith_cons hfalse]
  rfl

theorem cellExtent_cons {c : Char} (hmark : c ≠ '$') (hletter : isAsciiLetter c = false)
    (rest : List Char) : cellExtent (c :: rest) = 0 := by
  have hfixed : dollar (c :: rest) = 0 := by
    unfold dollar
    split
    · rename_i heq
      cases heq
      contradiction
    · rfl
  unfold cellExtent
  simp [hfixed, run_of_stops (Text.stops_cons.mpr hletter)]

theorem nameExtent_cons {c : Char} (h : isNameStart c = false) (rest : List Char) :
    nameExtent (c :: rest) = 0 := by
  unfold nameExtent
  simp only [h, Bool.false_eq_true, if_false]

theorem numberExtent_cons {c : Char} (hdigit : isAsciiDigit c = false) (hpoint : c ≠ '.')
    (rest : List Char) : numberExtent (c :: rest) = 0 := by
  unfold numberExtent
  dsimp only
  rw [run_of_stops (Text.stops_cons.mpr hdigit), List.drop_zero]
  split
  · rename_i heq
    cases heq
    contradiction
  · rfl

theorem textExtent_cons {c : Char} (h : c ≠ '"') (rest : List Char) : textExtent (c :: rest) = 0 := by
  unfold textExtent
  split
  · rename_i heq
    cases heq
    contradiction
  · rfl

/-! ## Where a printed token starts -/

/-- The first of the classes that starts here, and how far it goes, before `rest`. -/
structure Lexes (candidates : List Terminal) (t : Terminal) (cs rest : List Char) : Prop where
  first : first? candidates (cs ++ rest) = some t
  extent : t.extent (cs ++ rest) = cs.length
  not_spacing : ∀ c ∈ cs.head?, isSpacing c = false

theorem first?_cons_of_zero {t : Terminal} {ts : List Terminal} {cs : List Char} (h : t.extent cs = 0) :
    first? (t :: ts) cs = first? ts cs := by
  unfold first?
  rw [List.find?_cons_of_neg]
  simp [h]

theorem first?_cons_of_ne {t : Terminal} {ts : List Terminal} {cs : List Char} (h : t.extent cs ≠ 0) :
    first? (t :: ts) cs = some t := by
  unfold first?
  rw [List.find?_cons_of_pos]
  simp [h]

theorem extent_of_first? {ts : List Terminal} {cs : List Char} {t : Terminal}
    (h : first? ts cs = some t) : t.extent cs ≠ 0 := by
  simpa using List.find?_some h

theorem first?_append {ts us : List Terminal} {t : Terminal} {cs : List Char}
    (h : first? ts cs = some t) : first? (ts ++ us) cs = some t := by
  unfold first? at h ⊢
  rw [List.find?_append, h]
  rfl

/-! ### Names -/

/-- A name: it starts with a letter or an underscore and goes on with these, digits and points. -/
def IsName : List Char → Prop
  | [] => False
  | c :: rest => isNameStart c ∧ ∀ d ∈ rest, isNameRest d

instance : DecidablePred IsName
  | [] => inferInstanceAs (Decidable False)
  | _ :: _ => inferInstanceAs (Decidable (_ ∧ _))

theorem IsName.exists_cons {cs : List Char} (h : IsName cs) :
    ∃ c rest, cs = c :: rest ∧ isNameStart c ∧ ∀ d ∈ rest, isNameRest d := by
  cases cs with
  | nil => exact h.elim
  | cons c rest => exact ⟨c, rest, rfl, h⟩

theorem IsName.isNameRest {cs : List Char} (h : IsName cs) : ∀ c ∈ cs, isNameRest c := by
  obtain ⟨c, rest, rfl, hstart, hrest⟩ := h.exists_cons
  intro d hd
  rcases List.mem_cons.mp hd with rfl | hd
  · unfold Terminal.isNameRest
    rw [hstart]
    rfl
  · exact hrest d hd

theorem nameExtent_append {name rest : List Char} (hname : IsName name) (hrest : Stops isNameRest rest) :
    nameExtent (name ++ rest) = name.length := by
  obtain ⟨c, cs, rfl, hstart, hcs⟩ := hname.exists_cons
  rw [List.cons_append, nameExtent, if_pos hstart, run_append hcs hrest]
  rfl

/-- Nothing that has to end where a name ends is read off a part of a name. -/
theorem wordExtent_inside {cs rest : List Char} (hcs : ∀ c ∈ cs, isNameRest c) {n : Nat}
    (hn : n < cs.length) : wordExtent (cs ++ rest) n = 0 := by
  have hhead : isNameRest cs[n] := hcs _ (List.getElem_mem hn)
  unfold wordExtent
  rw [List.drop_append_of_le_length hn.le, List.drop_eq_getElem_cons hn]
  simp only [endsWord, List.cons_append, hhead, Bool.true_or, Bool.not_true, Bool.false_eq_true,
    if_false]

/-! ### References -/

theorem isAsciiLetter_of_isColumnLetter {c : Char} (h : Address.isColumnLetter c) :
    isAsciiLetter c := by
  unfold Address.isColumnLetter at h
  unfold isAsciiLetter
  rw [h, Bool.true_or]

theorem not_isAsciiLetter_of_isAsciiDigit {c : Char} (h : isAsciiDigit c) :
    isAsciiLetter c = false := by
  unfold isAsciiDigit at h
  simp only [Bool.and_eq_true, decide_eq_true_eq] at h
  unfold isAsciiLetter
  simp only [Bool.or_eq_false_iff, Bool.and_eq_false_iff, decide_eq_false_iff_not]
  omega

theorem not_isAsciiDigit_of_isColumnLetter {c : Char} (h : Address.isColumnLetter c) :
    isAsciiDigit c = false := by
  unfold Address.isColumnLetter at h
  simp only [Bool.and_eq_true, decide_eq_true_eq] at h
  unfold isAsciiDigit
  rw [Bool.and_eq_false_iff, decide_eq_false_iff_not, decide_eq_false_iff_not]
  omega

theorem dollar_of_ne {cs : List Char} (h : cs.head? ≠ some '$') : dollar cs = 0 := by
  unfold dollar
  split
  · exact absurd rfl h
  · rfl

theorem isCaseOf_of_isAsciiDigit {letter d : Char} (hupper : isAsciiDigit letter = false)
    (hlower : isAsciiDigit letter.toLower = false) (hd : isAsciiDigit d) :
    isCaseOf letter d = false := by
  rw [Bool.eq_false_iff]
  intro hcase
  unfold isCaseOf at hcase
  simp only [Bool.or_eq_true, Bool.and_eq_true, beq_iff_eq] at hcase
  rcases hcase with ((rfl | rfl) | ⟨-, rfl⟩) | ⟨-, rfl | rfl⟩
  · exact absurd hd (Bool.eq_false_iff.mp hupper)
  · exact absurd hd (Bool.eq_false_iff.mp hlower)
  all_goals exact absurd hd (by decide)

theorem startsWith_of_isAsciiDigit {spelling cs : List Char} {d : Char} (hd : isAsciiDigit d)
    (hspelling : ∀ letter ∈ spelling,
      isAsciiDigit letter = false ∧ isAsciiDigit letter.toLower = false)
    (hlength : cs.length < spelling.length) (rest : List Char) :
    startsWith spelling (cs ++ d :: rest) = false := by
  induction cs generalizing spelling with
  | nil =>
    obtain ⟨letter, spelling, rfl⟩ := List.exists_cons_of_length_pos hlength
    have hletter := hspelling letter List.mem_cons_self
    exact startsWith_cons (isCaseOf_of_isAsciiDigit hletter.1 hletter.2 hd) _ _
  | cons c cs ih =>
    obtain ⟨letter, spelling, rfl⟩ := List.exists_cons_of_length_pos (Nat.zero_lt_of_lt hlength)
    rw [List.cons_append, startsWith, ih (fun l hl => hspelling l (List.mem_cons_of_mem letter hl))
      (Nat.lt_of_succ_lt_succ hlength), Bool.and_false]

section

variable {letters digits rest : List Char} (hletters : ∀ c ∈ letters, Address.isColumnLetter c)
  (hdigits : ∀ c ∈ digits, isAsciiDigit c) (hpos : 1 ≤ letters.length) (hdigit : digits ≠ [])
  (hrest : Ends rest)

include hletters hdigits hpos hdigit hrest

/-- Letters and digits are an address unless there are too many letters. -/
theorem cellExtent_append : cellExtent (letters ++ digits ++ rest) =
    if letters.length ≤ 3 then (letters ++ digits).length else 0 := by
  obtain ⟨d, ds, rfl⟩ := List.exists_cons_of_ne_nil hdigit
  obtain ⟨l, ls, rfl⟩ := List.exists_cons_of_length_pos hpos
  have hletter := hletters l List.mem_cons_self
  have hd := hdigits d List.mem_cons_self
  have hfixed : dollar (l :: ls ++ (d :: ds ++ rest)) = 0 := by
    apply dollar_of_ne
    rintro ⟨rfl⟩
    exact absurd hletter (by decide)
  have hmark : dollar (d :: ds ++ rest) = 0 := by
    apply dollar_of_ne
    rintro ⟨rfl⟩
    exact absurd hd (by decide)
  have hrun : run isAsciiLetter (l :: ls ++ (d :: ds ++ rest)) = (l :: ls).length :=
    run_append (fun c hc => isAsciiLetter_of_isColumnLetter (hletters c hc))
      (Text.stops_cons.mpr (not_isAsciiLetter_of_isAsciiDigit hd))
  have hrow : run isAsciiDigit (d :: ds ++ rest) = (d :: ds).length :=
    run_append hdigits hrest.stops_isAsciiDigit
  rw [List.append_assoc]
  unfold cellExtent
  simp only [hfixed, List.drop_zero, hrun, Nat.zero_add, List.drop_left, hmark, Nat.add_zero, hrow]
  rw [← List.append_assoc, ← List.length_append, wordExtent_append hrest]
  congr 1
  simp only [Bool.and_eq_true, decide_eq_true_eq, bne_iff_ne, ne_eq, List.length_cons, eq_iff_iff]
  omega

omit hdigit in
theorem rowColumnExtent_append : rowColumnExtent (letters ++ digits ++ rest) = 0 := by
  obtain ⟨l, ls, rfl⟩ := List.exists_cons_of_length_pos hpos
  rw [List.append_assoc, List.cons_append]
  unfold rowColumnExtent
  dsimp only
  cases ls with
  | nil =>
    -- the row number is the whole rest, and no `C` follows it
    rw [List.nil_append, run_append hdigits hrest.stops_isAsciiDigit, List.drop_left]
    cases rest with
    | nil => rfl
    | cons c rest =>
      have hupper : c ≠ 'C' := fun hc => hrest.head_ne (c := 'C') (by decide) (by rw [hc]; rfl)
      have hlower : c ≠ 'c' := fun hc => hrest.head_ne (c := 'c') (by decide) (by rw [hc]; rfl)
      simp [hupper, hlower]
  | cons k ls =>
    have hk := not_isAsciiDigit_of_isColumnLetter (hletters k (by simp))
    rw [List.cons_append, run_of_stops (Text.stops_cons.mpr hk)]
    simp

omit hdigit hrest in
theorem isName_append : IsName (letters ++ digits) := by
  obtain ⟨l, ls, rfl⟩ := List.exists_cons_of_length_pos hpos
  have hstart : ∀ c, Address.isColumnLetter c → isNameStart c := fun c hc => by
    unfold isNameStart
    rw [isAsciiLetter_of_isColumnLetter hc]
    rfl
  refine ⟨hstart l (hletters l List.mem_cons_self), fun c hc => ?_⟩
  rcases List.mem_append.mp hc with hc | hc
  · unfold isNameRest
    rw [hstart c (hletters c (List.mem_cons_of_mem l hc))]
    rfl
  · exact isNameRest_of_isAsciiDigit (hdigits c hc)

omit hrest in
/-- No truth value: it would end inside the letters, or a digit would have to be one of its letters. -/
theorem boolExtent_append : boolExtent (letters ++ digits ++ rest) = 0 := by
  have hname := (isName_append hletters hdigits hpos).isNameRest
  obtain ⟨d, ds, rfl⟩ := List.exists_cons_of_ne_nil hdigit
  have hd := hdigits d List.mem_cons_self
  have hword : ∀ {spelling : List Char}, (∀ letter ∈ spelling,
      isAsciiDigit letter = false ∧ isAsciiDigit letter.toLower = false) →
      startsWith spelling (letters ++ d :: ds ++ rest) →
        wordExtent (letters ++ d :: ds ++ rest) spelling.length = 0 := by
    intro spelling hspelling hstarts
    apply wordExtent_inside hname
    rw [List.append_assoc, List.cons_append] at hstarts
    have hlength : spelling.length ≤ letters.length := by
      rw [← Nat.not_lt]
      intro hshort
      rw [startsWith_of_isAsciiDigit hd hspelling hshort] at hstarts
      contradiction
    simp only [List.length_append, List.length_cons]
    omega
  unfold boolExtent
  split
  · rename_i htrue
    exact hword (by decide) htrue
  split
  · rename_i hfalse
    exact hword (by decide) hfalse
  · rfl

end

theorem isSpacing_of_isNameStart {c : Char} (h : isNameStart c) : isSpacing c = false := by
  rw [Bool.eq_false_iff]
  intro hc
  unfold isSpacing at hc
  simp only [Bool.or_eq_true, beq_iff_eq] at hc
  rcases hc with (((rfl | rfl) | rfl) | rfl) | rfl <;> exact absurd h (by decide)

section

variable {a : Address} (h : a.Natural) {rest : List Char} (hrest : Ends rest)

include h hrest

theorem rowColumnExtent_address : extent .rowColumn (a.chars ++ rest) = 0 := by
  rw [h.chars_eq]
  exact rowColumnExtent_append (fun _ => Address.isColumnLetter_of_mem_letters)
    (fun _ => Number.isAsciiDigit_of_mem_natChars)
    (List.length_pos_iff.mpr (Address.letters_ne_nil (Nat.succ_ne_zero _))) hrest

theorem cellExtent_address : extent .cell (a.chars ++ rest) =
    if a.col < Address.columnsWithin 3 then a.chars.length else 0 := by
  have hfew : (Address.letters (a.col.toNat + 1)).length ≤ 3 ↔ a.col < Address.columnsWithin 3 := by
    have hcol := h.2
    rw [Address.length_letters_le_iff]
    generalize Address.columnsWithin 3 = most
    omega
  rw [h.chars_eq]
  simp only [← hfew]
  exact cellExtent_append (fun _ => Address.isColumnLetter_of_mem_letters)
    (fun _ => Number.isAsciiDigit_of_mem_natChars)
    (List.length_pos_iff.mpr (Address.letters_ne_nil (Nat.succ_ne_zero _)))
    (Number.natChars_ne_nil _) hrest

omit hrest in
theorem boolExtent_address (rest : List Char) : extent .bool (a.chars ++ rest) = 0 := by
  rw [h.chars_eq]
  exact boolExtent_append (fun _ => Address.isColumnLetter_of_mem_letters)
    (fun _ => Number.isAsciiDigit_of_mem_natChars)
    (List.length_pos_iff.mpr (Address.letters_ne_nil (Nat.succ_ne_zero _)))
    (Number.natChars_ne_nil _)

omit hrest in
theorem isName_address : IsName a.chars := by
  rw [h.chars_eq]
  exact isName_append (fun _ => Address.isColumnLetter_of_mem_letters)
    (fun _ => Number.isAsciiDigit_of_mem_natChars)
    (List.length_pos_iff.mpr (Address.letters_ne_nil (Nat.succ_ne_zero _)))

omit hrest in
theorem errorExtent_address (rest : List Char) : extent .errorCode (a.chars ++ rest) = 0 := by
  obtain ⟨c, cs, hchars, hstart, -⟩ := (isName_address h).exists_cons
  rw [hchars]
  apply errorExtent_cons
  rintro rfl
  exact absurd hstart (by decide)

omit hrest in
theorem address_not_spacing : ∀ c ∈ a.chars.head?, isSpacing c = false := by
  obtain ⟨c, cs, hchars, hstart, -⟩ := (isName_address h).exists_cons
  rw [hchars]
  rintro d ⟨rfl⟩
  exact isSpacing_of_isNameStart hstart

omit hrest in
theorem address_ne_nil : a.chars ≠ [] := by
  obtain ⟨c, cs, hchars, -⟩ := (isName_address h).exists_cons
  rw [hchars]
  exact List.cons_ne_nil c cs

end

/-- The text of an address is a token of its own where a reference may stand. -/
theorem lexes_address {a : Address} (h : a.Spellable) {rest : List Char} (hrest : Ends rest) :
    Lexes Focus.operandStarts .cell a.chars rest ∧ Lexes [.rowColumn, .cell] .cell a.chars rest := by
  have hnat := h.natural
  have hrow := rowColumnExtent_address hnat hrest
  have hextent := cellExtent_address hnat hrest
  rw [if_pos h.col_lt] at hextent
  have hne : extent .cell (a.chars ++ rest) ≠ 0 := by
    rw [hextent, ne_eq, List.length_eq_zero_iff]
    exact address_ne_nil hnat
  refine ⟨⟨?_, hextent, address_not_spacing hnat⟩, ⟨?_, hextent, address_not_spacing hnat⟩⟩
  · unfold Focus.operandStarts
    rw [first?_cons_of_zero hrow, first?_cons_of_zero (errorExtent_address hnat rest),
      first?_cons_of_zero (boolExtent_address hnat rest), first?_cons_of_ne hne]
  · rw [first?_cons_of_zero hrow, first?_cons_of_ne hne]

/-- An address with too many letters is taken for a name, and for nothing where only a reference may
stand. -/
theorem lexes_far_address {a : Address} (h : a.Natural) (hfar : Address.columnsWithin 3 ≤ a.col)
    {rest : List Char} (hrest : Ends rest) : Lexes Focus.operandStarts .name a.chars rest ∧
      first? [.rowColumn, .cell] (a.chars ++ rest) = none := by
  have hrow := rowColumnExtent_address h hrest
  have hcell := cellExtent_address h hrest
  rw [if_neg (Int.not_lt.mpr hfar)] at hcell
  have hextent : extent .name (a.chars ++ rest) = a.chars.length :=
    nameExtent_append (isName_address h) (hrest.stops fun _ h => h)
  have hne : extent .name (a.chars ++ rest) ≠ 0 := by
    rw [hextent, ne_eq, List.length_eq_zero_iff]
    exact address_ne_nil h
  refine ⟨⟨?_, hextent, address_not_spacing h⟩, ?_⟩
  · unfold Focus.operandStarts
    rw [first?_cons_of_zero hrow, first?_cons_of_zero (errorExtent_address h rest),
      first?_cons_of_zero (boolExtent_address h rest), first?_cons_of_zero hcell,
      first?_cons_of_ne hne]
  · rw [first?_cons_of_zero hrow, first?_cons_of_zero hcell]
    rfl

/-! ### Calls -/

theorem not_mem_take_run {p : Char → Bool} {x : Char} (hx : p x = false) (cs : List Char) :
    x ∉ cs.take (run p cs) := by
  unfold run
  rw [← List.prefix_iff_eq_take.mp (List.takeWhile_prefix p)]
  intro hmem
  rw [List.all_eq_true.mp List.all_takeWhile x hmem] at hx
  contradiction

/-- Nothing that has to end before a parenthesis is read off a name with a parenthesis after it. -/
theorem wordExtent_open {name rest : List Char} (hname : ∀ c ∈ name, isNameRest c) {n : Nat}
    (h : '(' ∉ (name ++ '(' :: rest).take n) : wordExtent (name ++ '(' :: rest) n = 0 := by
  rcases Nat.lt_trichotomy n name.length with hn | rfl | hn
  · exact wordExtent_inside hname hn
  · unfold wordExtent
    rw [List.drop_left]
    rfl
  · refine absurd ?_ h
    rw [List.take_append]
    obtain ⟨k, hk⟩ : ∃ k, n - name.length = k + 1 := ⟨n - name.length - 1, by omega⟩
    rw [hk, List.take_succ_cons]
    simp

theorem not_mem_take_add {x : Char} {cs : List Char} {j k : Nat} (hj : x ∉ cs.take j)
    (hk : x ∉ (cs.drop j).take k) : x ∉ cs.take (j + k) := by
  rw [List.take_add, List.mem_append]
  exact fun h => h.elim hj hk

theorem rowColumnExtent_open {name rest : List Char} (hname : ∀ c ∈ name, isNameRest c) :
    rowColumnExtent (name ++ '(' :: rest) = 0 := by
  generalize hcs : name ++ '(' :: rest = cs
  unfold rowColumnExtent
  split
  · rfl
  rename_i r tail
  dsimp only
  split
  · rfl
  rename_i c digits hdrop
  split
  · rename_i hshape
    simp only [Bool.and_eq_true, Bool.or_eq_true, beq_iff_eq] at hshape
    have hcount : run isAsciiDigit tail + run isAsciiDigit digits + 2 =
        1 + (run isAsciiDigit tail + (1 + run isAsciiDigit digits)) := by omega
    rw [← hcs]
    apply wordExtent_open hname
    rw [hcs, hcount]
    refine not_mem_take_add ?_ (not_mem_take_add (not_mem_take_run (by decide) tail) ?_)
    · rw [List.take_succ_cons, List.take_zero, List.mem_singleton]
      rcases hshape.1.1.1 with rfl | rfl <;> decide
    · rw [List.drop_one, List.tail_cons, hdrop]
      refine not_mem_take_add ?_ (not_mem_take_run (by decide) digits)
      rw [List.take_succ_cons, List.take_zero, List.mem_singleton]
      rcases hshape.1.2 with rfl | rfl <;> decide
  · rfl

theorem not_mem_take_dollar (cs : List Char) : '(' ∉ cs.take (dollar cs) := by
  unfold dollar
  split <;> simp

theorem cellExtent_open {name rest : List Char} (hname : ∀ c ∈ name, isNameRest c) :
    cellExtent (name ++ '(' :: rest) = 0 := by
  unfold cellExtent
  dsimp only
  split
  · apply wordExtent_open hname
    refine not_mem_take_add (not_mem_take_add (not_mem_take_add (not_mem_take_dollar _) ?_) ?_) ?_
    · exact not_mem_take_run (by decide) _
    · exact not_mem_take_dollar _
    · exact not_mem_take_run (by decide) _
  · rfl

theorem not_mem_take_of_startsWith {spelling cs : List Char}
    (hspelling : ∀ letter ∈ spelling, isCaseOf letter '(' = false) (h : startsWith spelling cs) :
    '(' ∉ cs.take spelling.length := by
  induction spelling generalizing cs with
  | nil => simp
  | cons letter spelling ih =>
    cases cs with
    | nil => simp
    | cons c cs =>
      rw [startsWith, Bool.and_eq_true] at h
      rw [List.length_cons, List.take_succ_cons, List.mem_cons, not_or]
      refine ⟨?_, ih (fun l hl => hspelling l (List.mem_cons_of_mem letter hl)) h.2⟩
      rintro rfl
      rw [hspelling letter List.mem_cons_self] at h
      exact Bool.false_ne_true h.1

theorem boolExtent_open {name rest : List Char} (hname : ∀ c ∈ name, isNameRest c) :
    boolExtent (name ++ '(' :: rest) = 0 := by
  unfold boolExtent
  split
  · rename_i htrue
    exact wordExtent_open hname (not_mem_take_of_startsWith (by decide) htrue)
  split
  · rename_i hfalse
    exact wordExtent_open hname (not_mem_take_of_startsWith (by decide) hfalse)
  · rfl

/-- The name of a call is a token of its own, also where it looks like a reference or a truth value:
neither of these is taken before a parenthesis. -/
theorem lexes_name {name : List Char} (h : IsName name) (rest : List Char) :
    Lexes Focus.operandStarts .name name ('(' :: rest) := by
  have hname := h.isNameRest
  have hextent : extent .name (name ++ '(' :: rest) = name.length :=
    nameExtent_append h (Text.stops_cons.mpr (by decide))
  have hrow : extent .rowColumn (name ++ '(' :: rest) = 0 := rowColumnExtent_open hname
  have hbool : extent .bool (name ++ '(' :: rest) = 0 := boolExtent_open hname
  have hcell : extent .cell (name ++ '(' :: rest) = 0 := cellExtent_open hname
  obtain ⟨c, cs, rfl, hstart, -⟩ := h.exists_cons
  have herror : extent .errorCode (c :: cs ++ '(' :: rest) = 0 := by
    apply errorExtent_cons
    rintro rfl
    exact absurd hstart (by decide)
  have hne : extent .name (c :: cs ++ '(' :: rest) ≠ 0 := by
    rw [hextent]
    simp
  refine ⟨?_, hextent, ?_⟩
  · unfold Focus.operandStarts
    rw [first?_cons_of_zero hrow, first?_cons_of_zero herror, first?_cons_of_zero hbool,
      first?_cons_of_zero hcell, first?_cons_of_ne hne]
  · rintro d ⟨rfl⟩
    exact isSpacing_of_isNameStart hstart

/-! ### Numbers -/

theorem exponentExtent_exponentPart (n : Numeral) {rest : List Char} (hrest : Ends rest) :
    exponentExtent (n.exponentPart ++ rest) = n.exponentPart.length := by
  unfold Numeral.exponentPart
  cases n.exponent with
  | none =>
    cases rest with
    | nil => rfl
    | cons c rest =>
      have hlower : c ≠ 'e' := fun hc => hrest.head_ne (c := 'e') (by decide) (by rw [hc]; rfl)
      have hupper : c ≠ 'E' := fun hc => hrest.head_ne (c := 'E') (by decide) (by rw [hc]; rfl)
      simp [exponentExtent, hlower, hupper]
  | some e =>
    obtain ⟨digits, hchars, hne, hdigits, -⟩ := Number.Numeral.exponentChars_eq e
    have hrun := run_append hdigits hrest.stops_isAsciiDigit
    dsimp only
    rw [hchars]
    have hpos := List.length_pos_iff.mpr hne
    by_cases hnegative : e < 0
    · simp [exponentExtent, hnegative, hrun, hne]
    · simp [exponentExtent, hnegative, hrun, hne]

theorem stops_isAsciiDigit_exponentPart (n : Numeral) {rest : List Char} (hrest : Ends rest) :
    Stops isAsciiDigit (n.exponentPart ++ rest) := by
  unfold Numeral.exponentPart
  cases n.exponent with
  | none => exact hrest.stops_isAsciiDigit
  | some e => exact Text.stops_cons.mpr (by decide)

theorem numberExtent_append (n : Numeral) {rest : List Char} (hrest : Ends rest) :
    numberExtent (n.chars ++ rest) = n.chars.length := by
  have hwhole := List.length_pos_iff.mpr n.whole_ne_nil
  have hexponent := exponentExtent_exponentPart n hrest
  have hstops := stops_isAsciiDigit_exponentPart n hrest
  unfold Numeral.chars Numeral.fractionChars
  by_cases hpoint : n.fraction = []
  · have hhead : ∀ tail, n.exponentPart ++ rest ≠ '.' :: tail := by
      intro tail heq
      unfold Numeral.exponentPart at heq
      cases hexp : n.exponent with
      | none =>
        rw [hexp] at heq
        exact hrest.head_ne (c := '.') (by decide) (by rw [← List.nil_append rest, heq]; rfl)
      | some e =>
        rw [hexp] at heq
        simp at heq
    rw [if_pos hpoint, List.nil_append, List.append_assoc]
    unfold numberExtent
    dsimp only
    rw [run_append n.isAsciiDigit_whole hstops, List.drop_left]
    split
    · rename_i heq
      exact absurd heq (hhead _)
    · rw [if_neg (by omega), hexponent, List.length_append]
  · rw [if_neg hpoint, List.append_assoc, List.append_assoc, List.cons_append]
    unfold numberExtent
    dsimp only
    rw [run_append n.isAsciiDigit_whole (Text.stops_cons.mpr (by decide)), List.drop_left]
    simp only [run_append n.isAsciiDigit_fraction hstops, List.drop_left, hexponent,
      List.length_append, List.length_cons]
    rw [if_neg (by omega)]
    omega

theorem isNameStart_of_isCaseOf {letter c : Char} (hletter : isNameStart letter)
    (hlower : isNameStart letter.toLower) (hs : letter ≠ 'S') (hi : letter ≠ 'I')
    (h : isCaseOf letter c) : isNameStart c := by
  unfold isCaseOf at h
  simp only [Bool.or_eq_true, Bool.and_eq_true, beq_iff_eq] at h
  rcases h with ((rfl | rfl) | ⟨h, -⟩) | ⟨h, -⟩
  · exact hletter
  · exact hlower
  · exact absurd h hs
  · exact absurd h hi

/-- A truth value, a reference and a name start with a letter or a mark. -/
theorem word_extents_eq_zero {c : Char} (hletter : isNameStart c = false) (hmark : c ≠ '$')
    (rest : List Char) : extent .rowColumn (c :: rest) = 0 ∧ extent .bool (c :: rest) = 0 ∧
      extent .cell (c :: rest) = 0 ∧ extent .name (c :: rest) = 0 := by
  refine ⟨rowColumnExtent_cons ?_ ?_ rest, boolExtent_cons ?_ ?_ rest, cellExtent_cons hmark ?_ rest,
    nameExtent_cons hletter rest⟩
  · rintro rfl
    exact absurd hletter (by decide)
  · rintro rfl
    exact absurd hletter (by decide)
  · exact Bool.eq_false_iff.mpr fun h => Bool.eq_false_iff.mp hletter
      (isNameStart_of_isCaseOf (by decide) (by decide) (by decide) (by decide) h)
  · exact Bool.eq_false_iff.mpr fun h => Bool.eq_false_iff.mp hletter
      (isNameStart_of_isCaseOf (by decide) (by decide) (by decide) (by decide) h)
  · unfold isNameStart at hletter
    exact (Bool.or_eq_false_iff.mp hletter).1

theorem not_isNameStart_of_isAsciiDigit {c : Char} (h : isAsciiDigit c) : isNameStart c = false := by
  unfold isNameStart
  rw [not_isAsciiLetter_of_isAsciiDigit h, Bool.false_or, beq_eq_false_iff_ne]
  rintro rfl
  exact absurd h (by decide)

theorem lexes_number (n : Numeral) {rest : List Char} (hrest : Ends rest) :
    Lexes Focus.operandStarts .number n.chars rest := by
  have hextent : extent .number (n.chars ++ rest) = n.chars.length := numberExtent_append n hrest
  obtain ⟨c, cs, hwhole⟩ := List.exists_cons_of_ne_nil n.whole_ne_nil
  have hdigit := n.isAsciiDigit_whole c (by simp [hwhole])
  obtain ⟨tail, hchars⟩ : ∃ tail, n.chars = c :: tail := by
    unfold Numeral.chars
    rw [hwhole]
    exact ⟨_, rfl⟩
  rw [hchars] at hextent ⊢
  obtain ⟨hrow, hbool, hcell, hname⟩ := word_extents_eq_zero (not_isNameStart_of_isAsciiDigit hdigit)
    (by rintro rfl; exact absurd hdigit (by decide)) (tail ++ rest)
  have herror : extent .errorCode (c :: (tail ++ rest)) = 0 := by
    apply errorExtent_cons
    rintro rfl
    exact absurd hdigit (by decide)
  have hne : extent .number (c :: (tail ++ rest)) ≠ 0 := by
    rw [List.cons_append] at hextent
    rw [hextent]
    simp
  refine ⟨?_, hextent, ?_⟩
  · unfold Focus.operandStarts
    rw [List.cons_append, first?_cons_of_zero hrow, first?_cons_of_zero herror,
      first?_cons_of_zero hbool, first?_cons_of_zero hcell, first?_cons_of_zero hname,
      first?_cons_of_ne hne]
  · rintro d ⟨rfl⟩
    rw [Bool.eq_false_iff]
    intro hc
    unfold isSpacing at hc
    simp only [Bool.or_eq_true, beq_iff_eq] at hc
    rcases hc with (((rfl | rfl) | rfl) | rfl) | rfl <;> exact absurd hdigit (by decide)

/-! ### Texts -/

/-- A text with every quotation mark in it written twice. -/
theorem textExtentFrom_flatMap (cs : List Char) {rest : List Char} (hrest : rest.head? ≠ some '"')
    (size pairEnd : Nat) :
    textExtentFrom size pairEnd
      (cs.flatMap (fun c => if c == '"' then ['"', '"'] else [c]) ++ '"' :: rest) =
      size + (cs.flatMap (fun c => if c == '"' then ['"', '"'] else [c])).length + 1 := by
  induction cs generalizing size pairEnd with
  | nil =>
    rw [List.flatMap_nil, List.nil_append]
    cases rest with
    | nil => rfl
    | cons c rest =>
      have hc : c ≠ '"' := fun hc => hrest (by rw [hc]; rfl)
      rw [textExtentFrom]
      · rfl
      · intro tail heq
        cases heq
        exact hc rfl
  | cons c cs ih =>
    rw [List.flatMap_cons]
    by_cases hc : c = '"'
    · subst hc
      simp only [beq_self_eq_true, if_true, List.cons_append, List.nil_append]
      rw [textExtentFrom, ih]
      simp only [List.length_cons]
      omega
    · simp only [beq_eq_false_iff_ne.mpr hc, Bool.false_eq_true, if_false, List.cons_append,
        List.nil_append]
      rw [textExtentFrom, ih]
      · simp only [List.length_cons]
        omega
      · exact fun _ heq _ => hc heq
      · exact hc

theorem lexes_text (cs : List Char) {rest : List Char} (hrest : Ends rest) :
    Lexes Focus.operandStarts .text (quotedText cs) rest := by
  have hextent : extent .text (quotedText cs ++ rest) = (quotedText cs).length := by
    have hfrom := textExtentFrom_flatMap cs hrest.no_quote 1 0
    unfold quotedText
    rw [List.cons_append, List.append_assoc, List.singleton_append]
    refine hfrom.trans ?_
    simp only [List.length_cons, List.length_append, List.length_nil]
    omega
  refine ⟨?_, hextent, fun c hc => by cases hc; rfl⟩
  obtain ⟨tail, hchars⟩ : ∃ tail, quotedText cs ++ rest = '"' :: tail := ⟨_, rfl⟩
  have hne : extent .text ('"' :: tail) ≠ 0 := by
    rw [← hchars, hextent]
    simp [quotedText]
  have hnumber : extent .number ('"' :: tail) = 0 :=
    numberExtent_cons (c := '"') (by decide) (by decide) tail
  have herror : extent .errorCode ('"' :: tail) = 0 := errorExtent_cons (c := '"') (by decide) tail
  obtain ⟨hrow, hbool, hcell, hname⟩ := word_extents_eq_zero (c := '"') (by decide) (by decide) tail
  unfold Focus.operandStarts
  rw [hchars, first?_cons_of_zero hrow, first?_cons_of_zero herror, first?_cons_of_zero hbool,
    first?_cons_of_zero hcell, first?_cons_of_zero hname, first?_cons_of_zero hnumber,
    first?_cons_of_ne hne]

/-! ### Truth values and error codes -/

theorem lexes_bool (b : Bool) {rest : List Char} (hrest : Ends rest) :
    Lexes Focus.operandStarts .bool (boolText b).toList rest := by
  have hextent : extent .bool ((boolText b).toList ++ rest) = (boolText b).toList.length := by
    cases b with
    | true =>
      have hstarts : startsWith ['T', 'R', 'U', 'E'] ((boolText true).toList ++ rest) = true := rfl
      change boolExtent _ = _
      unfold boolExtent
      rw [if_pos hstarts]
      exact wordExtent_append hrest
    | false =>
      have hother : startsWith ['T', 'R', 'U', 'E'] ((boolText false).toList ++ rest) = false := rfl
      have hstarts : startsWith ['F', 'A', 'L', 'S', 'E'] ((boolText false).toList ++ rest) = true := rfl
      change boolExtent _ = _
      unfold boolExtent
      rw [hother, if_neg Bool.false_ne_true, if_pos hstarts]
      exact wordExtent_append hrest
  obtain ⟨c, tail, hchars, hc⟩ : ∃ c tail, (boolText b).toList ++ rest = c :: tail ∧
      (c = 'T' ∨ c = 'F') := by
    cases b with
    | true => exact ⟨_, _, rfl, .inl rfl⟩
    | false => exact ⟨_, _, rfl, .inr rfl⟩
  have hrow : extent .rowColumn (c :: tail) = 0 :=
    rowColumnExtent_cons (by rcases hc with rfl | rfl <;> decide)
      (by rcases hc with rfl | rfl <;> decide) tail
  have herror : extent .errorCode (c :: tail) = 0 :=
    errorExtent_cons (by rcases hc with rfl | rfl <;> decide) tail
  have hne : extent .bool (c :: tail) ≠ 0 := by
    rw [← hchars, hextent]
    cases b <;> decide
  refine ⟨?_, hextent, ?_⟩
  · unfold Focus.operandStarts
    rw [hchars, first?_cons_of_zero hrow, first?_cons_of_zero herror, first?_cons_of_ne hne]
  · cases b <;> decide

theorem lexes_errorCode (kind : ErrorKind) (rest : List Char) :
    Lexes Focus.operandStarts .errorCode kind.code.toList rest := by
  have hextent : extent .errorCode (kind.code.toList ++ rest) = kind.code.toList.length := by
    cases kind <;> rfl
  obtain ⟨tail, hchars⟩ : ∃ tail, kind.code.toList ++ rest = '#' :: tail := by
    cases kind <;> exact ⟨_, rfl⟩
  have hrow : extent .rowColumn ('#' :: tail) = 0 :=
    rowColumnExtent_cons (c := '#') (by decide) (by decide) tail
  have hne : extent .errorCode ('#' :: tail) ≠ 0 := by
    rw [← hchars, hextent]
    cases kind <;> decide
  refine ⟨?_, hextent, ?_⟩
  · unfold Focus.operandStarts
    rw [hchars, first?_cons_of_zero hrow, first?_cons_of_ne hne]
  · cases kind <;> decide

/-! ### Marks -/

/-- Where none of the longer classes starts, the marks decide. -/
theorem first?_marks {c : Char} (hletter : isNameStart c = false) (hdigit : isAsciiDigit c = false)
    (hmark : c ∉ ['#', '$', '.', '"']) (marks : List Terminal) (rest : List Char) :
    first? (.rowColumn :: .errorCode :: .bool :: .cell :: .name :: .number :: .text :: marks)
      (c :: rest) = first? marks (c :: rest) := by
  simp only [List.mem_cons, List.not_mem_nil, or_false, not_or] at hmark
  obtain ⟨hrow, hbool, hcell, hname⟩ := word_extents_eq_zero hletter hmark.2.1 rest
  have herror : extent .errorCode (c :: rest) = 0 := errorExtent_cons hmark.1 rest
  have hnumber : extent .number (c :: rest) = 0 := numberExtent_cons hdigit hmark.2.2.1 rest
  have htext : extent .text (c :: rest) = 0 := textExtent_cons hmark.2.2.2 rest
  rw [first?_cons_of_zero hrow, first?_cons_of_zero herror, first?_cons_of_zero hbool,
    first?_cons_of_zero hcell, first?_cons_of_zero hname, first?_cons_of_zero hnumber,
    first?_cons_of_zero htext]

theorem lexes_open (rest : List Char) : Lexes Focus.operandStarts (.mark .open) ['('] rest :=
  ⟨first?_marks (by decide) (by decide) (by decide) _ _, rfl, by decide⟩

theorem lexes_minus (rest : List Char) : Lexes Focus.operandStarts (.mark .minus) ['-'] rest :=
  ⟨first?_marks (by decide) (by decide) (by decide) _ _, rfl, by decide⟩

theorem lexes_plus (rest : List Char) : Lexes Focus.operandStarts (.mark .plus) ['+'] rest :=
  ⟨first?_marks (by decide) (by decide) (by decide) _ _, rfl, by decide⟩

theorem lexes_close_after_call (rest : List Char) :
    Lexes (Focus.operandStarts ++ [.mark .close]) (.mark .close) [')'] rest :=
  ⟨first?_marks (by decide) (by decide) (by decide) _ _, rfl, by decide⟩

/-- A mark after an operand, and the blank after a binary operator. -/
theorem lexes_binary (op : BinaryOp) (rest : List Char) : ∃ mark, binaryOp? mark = some op ∧
    Lexes Focus.operandFollowers (.mark mark) op.symbol.toList (' ' :: rest) := by
  cases op
  case equal => exact ⟨.equal, rfl, rfl, rfl, by decide⟩
  case notEqual => exact ⟨.notEqual, rfl, rfl, rfl, by decide⟩
  case less => exact ⟨.less, rfl, rfl, rfl, by decide⟩
  case greater => exact ⟨.greater, rfl, rfl, rfl, by decide⟩
  case lessEqual => exact ⟨.lessEqual, rfl, rfl, rfl, by decide⟩
  case greaterEqual => exact ⟨.greaterEqual, rfl, rfl, rfl, by decide⟩
  case join => exact ⟨.ampersand, rfl, rfl, rfl, by decide⟩
  case add => exact ⟨.plus, rfl, rfl, rfl, by decide⟩
  case subtract => exact ⟨.minus, rfl, rfl, rfl, by decide⟩
  case multiply => exact ⟨.star, rfl, rfl, rfl, by decide⟩
  case divide => exact ⟨.slash, rfl, rfl, rfl, by decide⟩
  case power => exact ⟨.caret, rfl, rfl, rfl, by decide⟩

theorem lexes_percent (rest : List Char) : Lexes Focus.operandFollowers (.mark .percent) ['%'] rest :=
  ⟨rfl, rfl, by decide⟩

theorem lexes_close (rest : List Char) : Lexes Focus.operandFollowers (.mark .close) [')'] rest :=
  ⟨rfl, rfl, by decide⟩

theorem lexes_comma (rest : List Char) : Lexes Focus.operandFollowers (.mark .comma) [','] rest :=
  ⟨rfl, rfl, by decide⟩

theorem lexes_colon (rest : List Char) :
    Lexes (Focus.operandFollowers ++ [.mark .colon]) (.mark .colon) [':'] rest :=
  ⟨rfl, rfl, by decide⟩

end Terminal
end Spreadsheet.Formula
