import Spreadsheet.Proofs.Formula.Scanning

/-! What ends a token. A word is read alike before any two texts that start with a blank or with a mark
that may follow an operand, and a mark alike before anything that does not make it a longer one. -/
namespace Spreadsheet.Formula.Terminal

open Text (isAsciiDigit isAsciiLetter Stops)

/-- The blanks, and the first characters of the marks that may follow an operand. -/
def separators : List Char :=
  [' ', '\t', '\x0c', '\r', '\n', '<', '>', '&', '^', ',', '=', '-', '%', '+', ')', '/', '*', ':']

theorem mem_separators_of_isSpacing {c : Char} (h : isSpacing c) : c ∈ separators := by
  unfold isSpacing at h
  simp only [Bool.or_eq_true, beq_iff_eq] at h
  rcases h with (((rfl | rfl) | rfl) | rfl) | rfl <;> decide

/-- A word ends before this text. -/
def Closes (rest : List Char) : Prop := ∀ c ∈ rest.head?, c ∈ separators

theorem closes_nil : Closes [] := fun _ h => by cases h

theorem closes_cons {c : Char} {rest : List Char} : Closes (c :: rest) ↔ c ∈ separators := by
  simp [Closes]

namespace Closes

variable {rest : List Char}

theorem stops {p : Char → Bool} (h : Closes rest) (hp : ∀ c ∈ separators, p c = false) : Stops p rest :=
  fun c hc => hp c (h c hc)

theorem ends (h : Closes rest) : Ends rest := by
  constructor
  · cases rest with
    | nil => rfl
    | cons c rest =>
      have hend : ∀ c ∈ separators, (!(isNameRest c || c == '(')) = true := by decide
      exact hend c (closes_cons.mp h)
  · intro hquote
    exact absurd (h _ hquote) (by decide)

theorem stops_digit (h : Closes rest) : Stops isAsciiDigit rest := h.stops (by decide)

end Closes

/-! ## Words that start with a letter -/

section

variable {cs rest : List Char}

theorem run_append_of_stops {p : Char → Bool} (h : Stops p rest) (cs : List Char) :
    run p (cs ++ rest) = run p cs := by
  unfold run
  rw [List.takeWhile_append]
  split
  · rename_i hall
    rw [Text.takeWhile_of_stops h, List.append_nil]
    exact hall.symm
  · rfl

theorem drop_run_append (p : Char → Bool) (cs rest : List Char) :
    (cs ++ rest).drop (run p cs) = cs.drop (run p cs) ++ rest :=
  List.drop_append_of_le_length (run_le p cs)

theorem wordExtent_append_of_closes (h : Closes rest) {n : Nat} (hn : n ≤ cs.length) :
    wordExtent (cs ++ rest) n = wordExtent cs n := by
  unfold wordExtent
  rw [List.drop_append_of_le_length hn]
  cases cs.drop n with
  | nil => rw [List.nil_append, h.ends.endsWord]; rfl
  | cons c tail => rfl

theorem rowColumnExtent_append_of_closes (h : Closes rest) (cs : List Char) :
    rowColumnExtent (cs ++ rest) = rowColumnExtent cs := by
  cases cs with
  | nil =>
    cases rest with
    | nil => rfl
    | cons c rest =>
      have hother : ∀ c ∈ separators, c ≠ 'R' ∧ c ≠ 'r' := by decide
      obtain ⟨hupper, hlower⟩ := hother c (closes_cons.mp h)
      exact rowColumnExtent_cons hupper hlower rest
  | cons r cs =>
    unfold rowColumnExtent
    rw [List.cons_append]
    dsimp only
    rw [run_append_of_stops h.stops_digit, drop_run_append]
    have hrows := run_le isAsciiDigit cs
    cases hdrop : cs.drop (run isAsciiDigit cs) with
    | nil =>
      cases rest with
      | nil => rfl
      | cons c rest =>
        have hother : ∀ c ∈ separators, (c == 'C' || c == 'c') = false := by decide
        simp [hother c (closes_cons.mp h)]
    | cons c tail =>
      have hlength := congrArg List.length hdrop
      have hcols := run_le isAsciiDigit tail
      rw [List.length_drop, List.length_cons] at hlength
      have hword : wordExtent (r :: cs ++ rest) (run isAsciiDigit cs + run isAsciiDigit tail + 2) =
          wordExtent (r :: cs) (run isAsciiDigit cs + run isAsciiDigit tail + 2) :=
        wordExtent_append_of_closes h (by rw [List.length_cons]; omega)
      rw [List.cons_append] at hword ⊢
      dsimp only
      rw [run_append_of_stops h.stops_digit, hword]

theorem dollar_append (h : Closes rest) (cs : List Char) : dollar (cs ++ rest) = dollar cs := by
  cases cs with
  | nil =>
    apply dollar_of_ne
    intro hdollar
    exact absurd (h _ hdollar) (by decide)
  | cons c cs =>
    by_cases hc : c = '$'
    · subst hc
      rfl
    · rw [dollar_of_ne (by simpa using hc), dollar_of_ne (by simpa using hc)]

theorem cellExtent_append_of_closes (h : Closes rest) (cs : List Char) :
    cellExtent (cs ++ rest) = cellExtent cs := by
  have hletters := add_drop_le (dollar_le cs) (run_le isAsciiLetter (cs.drop (dollar cs)))
  have hmark := add_drop_le hletters (dollar_le _)
  have hdigits := add_drop_le hmark (run_le isAsciiDigit _)
  have hstops : Stops isAsciiLetter rest := h.stops (by decide)
  unfold cellExtent
  dsimp only
  rw [dollar_append h, List.drop_append_of_le_length (dollar_le cs), run_append_of_stops hstops,
    List.drop_append_of_le_length hletters, dollar_append h, List.drop_append_of_le_length hmark,
    run_append_of_stops h.stops_digit, wordExtent_append_of_closes h hdigits]

theorem nameExtent_append_of_closes (h : Closes rest) (cs : List Char) :
    nameExtent (cs ++ rest) = nameExtent cs := by
  cases cs with
  | nil =>
    cases rest with
    | nil => rfl
    | cons c rest =>
      have hother : ∀ c ∈ separators, isNameStart c = false := by decide
      exact nameExtent_cons (hother c (closes_cons.mp h)) rest
  | cons c cs =>
    have hstops : Stops isNameRest rest := h.stops (by decide)
    rw [List.cons_append, nameExtent, nameExtent, run_append_of_stops hstops]

theorem startsWith_append {spelling : List Char} (hrest : ∀ c ∈ rest.head?, ∀ letter ∈ spelling,
    isCaseOf letter c = false) (cs : List Char) :
    startsWith spelling (cs ++ rest) = startsWith spelling cs := by
  induction spelling generalizing cs with
  | nil => rfl
  | cons letter spelling ih =>
    cases cs with
    | nil =>
      cases rest with
      | nil => rfl
      | cons c rest => exact startsWith_cons (hrest c rfl letter List.mem_cons_self) spelling rest
    | cons c cs =>
      rw [List.cons_append, startsWith, startsWith,
        ih fun d hd other hother => hrest d hd other (List.mem_cons_of_mem letter hother)]

theorem boolExtent_append_of_closes (h : Closes rest) (cs : List Char) :
    boolExtent (cs ++ rest) = boolExtent cs := by
  have hletters : ∀ c ∈ separators, ∀ letter ∈ ['T', 'R', 'U', 'E', 'F', 'A', 'L', 'S', 'E'],
      isCaseOf letter c = false := by decide
  have hcases : ∀ c ∈ rest.head?, ∀ letter ∈ ['T', 'R', 'U', 'E', 'F', 'A', 'L', 'S', 'E'],
      isCaseOf letter c = false := fun c hc => hletters c (h c hc)
  unfold boolExtent
  rw [startsWith_append fun c hc l hl => hcases c hc l (List.mem_append_left _ hl),
    startsWith_append fun c hc l hl => hcases c hc l (List.mem_append_right ['T', 'R', 'U', 'E'] hl)]
  split
  · rename_i htrue
    exact wordExtent_append_of_closes h (length_le_of_startsWith htrue)
  split
  · rename_i hfalse
    exact wordExtent_append_of_closes h (length_le_of_startsWith hfalse)
  · rfl

end

/-! ## Numbers -/

theorem exponentExtent_ne_one (cs : List Char) : exponentExtent cs ≠ 1 := by
  cases cs with
  | nil => exact Nat.zero_ne_one
  | cons e cs =>
    unfold exponentExtent
    dsimp only
    split
    · generalize run isAsciiDigit _ = digits
      split <;> omega
    · exact Nat.zero_ne_one

/-- No exponent part goes on behind a separator. -/
theorem exponentExtent_append_of_closes {rest : List Char} (h : Closes rest) (cs : List Char) :
    exponentExtent (cs ++ rest) = cs.length ↔ exponentExtent cs = cs.length := by
  match cs with
  | [] =>
    have hzero : exponentExtent rest = 0 := by
      cases rest with
      | nil => rfl
      | cons c rest =>
        have hother : ∀ c ∈ separators, (c == 'e' || c == 'E') = false := by decide
        exact if_neg (Bool.eq_false_iff.mp (hother c (closes_cons.mp h)))
    exact iff_of_true hzero rfl
  | [e] => exact iff_of_false (exponentExtent_ne_one _) (exponentExtent_ne_one _)
  | e :: d :: cs =>
    have hstops := h.stops_digit
    have hsame : exponentExtent (e :: d :: cs ++ rest) = exponentExtent (e :: d :: cs) := by
      by_cases hplus : d = '+'
      · subst hplus
        simp [exponentExtent, run_append_of_stops hstops]
      by_cases hminus : d = '-'
      · subst hminus
        simp [exponentExtent, run_append_of_stops hstops]
      · have hdigits := run_append_of_stops hstops (d :: cs)
        rw [List.cons_append] at hdigits
        simp [exponentExtent, hplus, hminus, hdigits]
    rw [hsame]

theorem numberExtent_of_point {cs tail : List Char}
    (h : cs.drop (run isAsciiDigit cs) = '.' :: tail) : numberExtent cs =
      if run isAsciiDigit cs + run isAsciiDigit tail = 0 then 0
      else run isAsciiDigit cs + run isAsciiDigit tail + 1 +
        exponentExtent (tail.drop (run isAsciiDigit tail)) := by
  unfold numberExtent
  simp only [h]

theorem numberExtent_of_no_point {cs : List Char}
    (h : (cs.drop (run isAsciiDigit cs)).head? ≠ some '.') : numberExtent cs =
      if run isAsciiDigit cs = 0 then 0
      else run isAsciiDigit cs + exponentExtent (cs.drop (run isAsciiDigit cs)) := by
  unfold numberExtent
  dsimp only
  split
  · rename_i hpoint
    rw [hpoint] at h
    exact absurd rfl h
  · rfl

/-- No number goes on behind a separator. -/
theorem numberExtent_append_of_closes {rest : List Char} (h : Closes rest) (cs : List Char) :
    numberExtent (cs ++ rest) = cs.length ↔ numberExtent cs = cs.length := by
  have hstops := h.stops_digit
  have hwhole := run_le isAsciiDigit cs
  have hlength := List.length_drop (i := run isAsciiDigit cs) (l := cs)
  have hrun := run_append_of_stops hstops cs
  have hdrop : (cs ++ rest).drop (run isAsciiDigit (cs ++ rest)) =
      cs.drop (run isAsciiDigit cs) ++ rest := by
    rw [hrun, drop_run_append]
  by_cases hpoint : (cs.drop (run isAsciiDigit cs)).head? = some '.'
  · obtain ⟨tail, htail⟩ := List.head?_eq_some_iff.mp hpoint
    have hexponent := exponentExtent_append_of_closes h (tail.drop (run isAsciiDigit tail))
    have hfraction := run_le isAsciiDigit tail
    rw [htail, List.length_cons] at hlength
    rw [htail, List.cons_append] at hdrop
    rw [List.length_drop] at hexponent
    rw [numberExtent_of_point htail, numberExtent_of_point hdrop, hrun, run_append_of_stops hstops,
      drop_run_append]
    split <;> omega
  · have hexponent := exponentExtent_append_of_closes h (cs.drop (run isAsciiDigit cs))
    have hpoint' : ((cs ++ rest).drop (run isAsciiDigit (cs ++ rest))).head? ≠ some '.' := by
      rw [hdrop, List.head?_append]
      intro hhead
      rcases Option.or_eq_some_iff.mp hhead with hhead | ⟨-, hhead⟩
      · exact hpoint hhead
      · exact absurd (h _ hhead) (by decide)
    rw [numberExtent_of_no_point hpoint, numberExtent_of_no_point hpoint', hdrop, hrun]
    split <;> omega

/-! ## Texts -/

theorem textExtentFrom_eq_or_lt (size pairEnd : Nat) (cs : List Char) :
    textExtentFrom size pairEnd cs = pairEnd ∨ size < textExtentFrom size pairEnd cs := by
  fun_induction textExtentFrom size pairEnd cs with
  | case1 => exact .inl rfl
  | case2 size pairEnd rest ih => omega
  | case3 size pairEnd rest _ => exact .inr (Nat.lt_succ_self size)
  | case4 size pairEnd c rest _ _ ih => omega

theorem textExtentFrom_quote {rest : List Char} (h : rest.head? ≠ some '"') (size pairEnd : Nat) :
    textExtentFrom size pairEnd ('"' :: rest) = size + 1 := by
  cases rest with
  | nil => rfl
  | cons c rest =>
    rw [textExtentFrom]
    rintro tail ⟨rfl⟩
    exact h rfl

/-- A text that ends with its last mark ends there before anything but another mark. -/
theorem textExtentFrom_append {rest rest' : List Char} (h : rest'.head? ≠ some '"') (cs : List Char)
    {size pairEnd : Nat} (hpair : pairEnd < size)
    (hextent : textExtentFrom size pairEnd (cs ++ rest) = size + cs.length) :
    textExtentFrom size pairEnd (cs ++ rest') = size + cs.length := by
  fun_induction textExtentFrom size pairEnd cs with
  | case1 size pairEnd =>
    have hfrom := textExtentFrom_eq_or_lt size pairEnd rest
    rw [List.nil_append, List.length_nil] at hextent
    omega
  | case2 size pairEnd cs ih =>
    simp only [List.cons_append, textExtentFrom, List.length_cons] at hextent ⊢
    rw [ih (by omega) (by omega)]
    omega
  | case3 size pairEnd cs hsingle =>
    cases cs with
    | nil => exact textExtentFrom_quote h size pairEnd
    | cons c cs =>
      have hc : (c :: cs ++ rest).head? ≠ some '"' := by
        rintro ⟨rfl⟩
        exact hsingle cs rfl
      rw [List.cons_append, textExtentFrom_quote hc] at hextent
      simp only [List.length_cons] at hextent
      omega
  | case4 size pairEnd c cs hpairs hquote ih =>
    have hcons : ∀ tail, textExtentFrom size pairEnd (c :: tail) =
        textExtentFrom (size + 1) pairEnd tail := by
      intro tail
      rw [textExtentFrom]
      · exact fun _ hc _ => hquote hc
      · exact hquote
    rw [List.cons_append, hcons, List.length_cons] at hextent ⊢
    rw [ih (by omega) (by omega)]
    omega

theorem textExtent_append {cs rest rest' : List Char} (hne : cs ≠ []) (h : rest'.head? ≠ some '"')
    (hextent : textExtent (cs ++ rest) = cs.length) :
    textExtent (cs ++ rest') = cs.length := by
  obtain ⟨c, cs, rfl⟩ := List.exists_cons_of_ne_nil hne
  by_cases hc : c = '"'
  · subst hc
    have hfrom : textExtentFrom 1 0 (cs ++ rest) = 1 + cs.length := by
      rw [Nat.add_comm]
      exact hextent
    rw [List.length_cons, Nat.add_comm]
    exact textExtentFrom_append h cs Nat.zero_lt_one hfrom
  · rw [List.cons_append, textExtent_cons hc] at hextent
    contradiction

/-! ## Error codes -/

/-- The upper-case letter that a character is a case of. -/
def letterOf (c : Char) : Char :=
  if c == '\u017F' then 'S' else if c == '\u0130' || c == '\u0131' then 'I' else c.toUpper

theorem letterOf_of_isCaseOf {letter c : Char} (hupper : letterOf letter = letter)
    (hlower : letterOf letter.toLower = letter) (h : isCaseOf letter c) : letterOf c = letter := by
  unfold isCaseOf at h
  simp only [Bool.or_eq_true, Bool.and_eq_true, beq_iff_eq] at h
  rcases h with ((rfl | rfl) | ⟨rfl, rfl⟩) | ⟨rfl, rfl | rfl⟩
  · exact hupper
  · exact hlower
  all_goals rfl

theorem prefix_of_startsWith {spelling cs : List Char} (hspelling : ∀ letter ∈ spelling,
    letterOf letter = letter ∧ letterOf letter.toLower = letter) (h : startsWith spelling cs) :
    spelling <+: cs.map letterOf := by
  induction spelling generalizing cs with
  | nil => exact List.nil_prefix
  | cons letter spelling ih =>
    cases cs with
    | nil => contradiction
    | cons c cs =>
      rw [startsWith, Bool.and_eq_true] at h
      obtain ⟨⟨hupper, hlower⟩, hrest⟩ := List.forall_mem_cons.mp hspelling
      rw [List.map_cons, letterOf_of_isCaseOf hupper hlower h.1, List.prefix_cons_inj]
      exact ih hrest h.2

/-- No text starts with two codes. -/
theorem errorCode_unique {code other cs : List Char} (hcode : code ∈ errorCodes)
    (hother : other ∈ errorCodes) (h : startsWith code cs) (h' : startsWith other cs) :
    code = other := by
  have hletters : ∀ code ∈ errorCodes, ∀ letter ∈ code,
      letterOf letter = letter ∧ letterOf letter.toLower = letter := by decide
  have hparts : ∀ code ∈ errorCodes, ∀ other ∈ errorCodes, code <+: other → code = other := by decide
  have hprefix := prefix_of_startsWith (hletters code hcode) h
  have hprefix' := prefix_of_startsWith (hletters other hother) h'
  rcases List.prefix_or_prefix_of_prefix hprefix hprefix' with hle | hle
  · exact hparts code hcode other hother hle
  · exact (hparts other hother code hcode hle).symm

theorem startsWith_append_of_le {spelling cs : List Char} (h : spelling.length ≤ cs.length)
    (rest : List Char) : startsWith spelling (cs ++ rest) = startsWith spelling cs := by
  induction spelling generalizing cs with
  | nil => rfl
  | cons letter spelling ih =>
    cases cs with
    | nil => contradiction
    | cons c cs => rw [List.cons_append, startsWith, startsWith, ih (Nat.le_of_succ_le_succ h)]

/-- A code ends where it ends, whatever follows. -/
theorem errorExtent_append {cs rest : List Char} (hne : cs ≠ [])
    (h : errorExtent (cs ++ rest) = cs.length) (rest' : List Char) :
    errorExtent (cs ++ rest') = cs.length := by
  unfold errorExtent at h
  split at h
  · rename_i code hfind
    have hcode : code ∈ errorCodes := List.mem_of_find?_eq_some hfind
    have hstarts : startsWith code (cs ++ rest) := by simpa using List.find?_some hfind
    rw [startsWith_append_of_le h.le] at hstarts
    rw [← startsWith_append_of_le h.le rest'] at hstarts
    unfold errorExtent
    cases hfind' : errorCodes.find? (startsWith · (cs ++ rest')) with
    | none => exact absurd hstarts (List.find?_eq_none.mp hfind' code hcode)
    | some other =>
      have hother : startsWith other (cs ++ rest') := by simpa using List.find?_some hfind'
      rw [← errorCode_unique hcode (List.mem_of_find?_eq_some hfind') hstarts hother]
      exact h
  · exact absurd (List.length_eq_zero_iff.mp h.symm) hne

/-! ## Words -/

/-- The classes of words that start with a letter or a dollar sign. -/
def lettered : List Terminal := [.rowColumn, .bool, .cell, .name]

theorem lettered_words : ∀ t ∈ lettered, t ∈ words := by
  decide

/-- The classes of the words that start with a character. -/
def headed (c : Char) : List Terminal :=
  if isNameStart c || c == '$' then lettered
  else if isAsciiDigit c || c == '.' then [.number]
  else if c == '#' then [.errorCode]
  else if c == '"' then [.text]
  else []

theorem headed_cases {c : Char} {t : Terminal} (h : t ∈ headed c) :
    headed c = lettered ∨ headed c = [t] := by
  unfold headed at h ⊢
  split
  · exact .inl rfl
  · rename_i hletter
    rw [if_neg hletter] at h
    split at h
    · simp_all
    split at h
    · simp_all
    split at h
    · simp_all
    · contradiction

theorem extent_of_not_mem_headed {t : Terminal} (ht : t ∈ words) {c : Char} (h : t ∉ headed c)
    (rest : List Char) : t.extent (c :: rest) = 0 := by
  have hlettered : t ∈ lettered → t.extent (c :: rest) = 0 := by
    intro hmem
    have hletter : (isNameStart c || c == '$') = false := by
      by_contra hletter
      exact h (by rwa [headed, if_pos (Bool.eq_true_of_not_eq_false hletter)])
    rw [Bool.or_eq_false_iff, beq_eq_false_iff_ne] at hletter
    obtain ⟨hrow, hbool, hcell, hname⟩ := word_extents_eq_zero hletter.1 hletter.2 rest
    simp only [lettered, List.mem_cons, List.not_mem_nil, or_false] at hmem
    rcases hmem with rfl | rfl | rfl | rfl
    exacts [hrow, hbool, hcell, hname]
  cases t with
  | errorCode =>
    refine errorExtent_cons ?_ rest
    rintro rfl
    exact h (by decide)
  | number =>
    have hpoint : c ≠ '.' := by
      rintro rfl
      exact h (by decide)
    refine numberExtent_cons (Bool.eq_false_iff.mpr fun hdigit => h ?_) hpoint rest
    have hmark : (c == '$') = false := by
      rw [beq_eq_false_iff_ne]
      rintro rfl
      exact absurd hdigit (by decide)
    unfold headed
    rw [not_isNameStart_of_isAsciiDigit hdigit, hmark, hdigit]
    exact List.mem_singleton_self _
  | text =>
    refine textExtent_cons ?_ rest
    rintro rfl
    exact h (by decide)
  | rowColumn | bool | cell | name => exact hlettered (by decide)
  | mark m => simp [words] at ht

theorem extent_append_of_closes {t : Terminal} (ht : t ∈ lettered) {rest : List Char}
    (h : Closes rest) (cs : List Char) : t.extent (cs ++ rest) = t.extent cs := by
  simp only [lettered, List.mem_cons, List.not_mem_nil, or_false] at ht
  rcases ht with rfl | rfl | rfl | rfl
  exacts [rowColumnExtent_append_of_closes h cs, boolExtent_append_of_closes h cs,
    cellExtent_append_of_closes h cs, nameExtent_append_of_closes h cs]

section

variable {t : Terminal} {cs rest rest' : List Char}

/-- A word that ends before one separator ends before any other, too. -/
theorem extent_eq_length (ht : t ∈ words) (hne : cs ≠ []) (h : Closes rest) (h' : Closes rest')
    (hextent : t.extent (cs ++ rest) = cs.length) : t.extent (cs ++ rest') = cs.length := by
  have hlettered : t ∈ lettered → t.extent (cs ++ rest') = cs.length := by
    intro hmem
    rw [extent_append_of_closes hmem h] at hextent
    rw [extent_append_of_closes hmem h', hextent]
  cases t with
  | errorCode => exact errorExtent_append hne hextent rest'
  | number =>
    have halone := (numberExtent_append_of_closes h cs).mp hextent
    exact (numberExtent_append_of_closes h' cs).mpr halone
  | text => exact textExtent_append hne h'.ends.no_quote hextent
  | rowColumn | bool | cell | name => exact hlettered (by decide)
  | mark m => simp [words] at ht

theorem first?_congr {ts : List Terminal} {cs ds : List Char}
    (h : ∀ t ∈ ts, t.extent cs = 0 ↔ t.extent ds = 0) : first? ts cs = first? ts ds :=
  List.find?_congr fun t ht => by rw [Bool.eq_iff_iff, bne_iff_ne, bne_iff_ne, ne_eq, ne_eq, h t ht]

theorem first?_words {cs : List Char} (ht : t ∈ words) :
    first? all cs = some t ↔ first? words cs = some t := by
  have hall : all = words ++ all.drop 7 := rfl
  have hmarks : ∀ t ∈ words, t ∉ all.drop 7 := by decide
  rw [hall]
  exact ⟨first?_append_left (hmarks t ht), first?_append⟩

/-- A word is the same one before any separator. -/
theorem Lexes.congr_of_closes (hlexes : Lexes all t cs rest) (ht : t ∈ words) (h : Closes rest)
    (h' : Closes rest') : Lexes all t cs rest' := by
  obtain ⟨c, tail, rfl, -⟩ := hlexes.exists_cons
  have hne : t.extent (c :: (tail ++ rest)) ≠ 0 := extent_of_first? hlexes.first
  have hextent := extent_eq_length ht (List.cons_ne_nil c tail) h h' hlexes.extent
  have hagree : ∀ t' ∈ words,
      t'.extent (c :: tail ++ rest') = 0 ↔ t'.extent (c :: tail ++ rest) = 0 := by
    intro t' ht'
    by_cases hmem : t' ∈ headed c
    · rcases headed_cases hmem with hheaded | hheaded
      · rw [hheaded] at hmem
        rw [extent_append_of_closes hmem h, extent_append_of_closes hmem h']
      · have hsame : t ∈ headed c := by
          by_contra hnot
          exact hne (extent_of_not_mem_headed ht hnot _)
        rw [hheaded, List.mem_singleton] at hsame
        rw [← hsame, hextent, hlexes.extent]
    · exact iff_of_true (extent_of_not_mem_headed ht' hmem _) (extent_of_not_mem_headed ht' hmem _)
  refine ⟨(first?_words ht).mpr ?_, hextent, hlexes.not_spacing⟩
  rw [first?_congr hagree]
  exact (first?_words ht).mp hlexes.first

end

/-! ## Names -/

theorem wordExtent_zero (cs : List Char) : wordExtent cs 0 = 0 := ite_self 0

theorem exists_wordExtent {t : Terminal} (ht : t ∈ [Terminal.rowColumn, .bool, .cell])
    (cs : List Char) : ∃ n, t.extent cs = wordExtent cs n := by
  have hzero : ∃ n, 0 = wordExtent cs n := ⟨0, (wordExtent_zero cs).symm⟩
  simp only [List.mem_cons, List.not_mem_nil, or_false] at ht
  rcases ht with rfl | rfl | rfl
  · change ∃ n, rowColumnExtent cs = _
    unfold rowColumnExtent
    split
    · exact hzero
    dsimp only
    split
    · exact hzero
    split
    · exact ⟨_, rfl⟩
    · exact hzero
  · change ∃ n, boolExtent cs = _
    unfold boolExtent
    split
    · exact ⟨4, rfl⟩
    split
    · exact ⟨5, rfl⟩
    · exact hzero
  · change ∃ n, cellExtent cs = _
    unfold cellExtent
    dsimp only
    split
    · exact ⟨_, rfl⟩
    · exact hzero

/-- What is read off a name as another word is all of the name. -/
theorem wordExtent_of_isName {cs : List Char} (h : IsName cs) {n : Nat} (hn : wordExtent cs n ≠ 0) :
    cs.length ≤ wordExtent cs n := by
  have hinside : ¬n < cs.length := by
    intro hlt
    have hzero : wordExtent (cs ++ []) n = 0 := wordExtent_inside h.isNameRest hlt
    rw [List.append_nil] at hzero
    exact hn hzero
  unfold wordExtent at hn ⊢
  split
  · exact Nat.le_of_not_lt hinside
  · rename_i hends
    rw [if_neg hends] at hn
    contradiction

/-- All of a name is read as one word, where it is read for itself. -/
theorem exists_lexes_of_isName {cs : List Char} (h : IsName cs) : ∃ t ∈ lettered, Lexes all t cs [] := by
  obtain ⟨c, tail, rfl, hstart, -⟩ := h.exists_cons
  have hname : extent .name (c :: tail) = (c :: tail).length := by
    have hextent := nameExtent_append h (Text.stops_nil isNameRest)
    rwa [List.append_nil] at hextent
  obtain ⟨t, hfirst⟩ : ∃ t, first? words (c :: tail) = some t := by
    rw [← Option.isSome_iff_exists]
    exact List.find?_isSome.mpr ⟨.name, by decide, by rw [hname]; rfl⟩
  have ht : t ∈ words := List.mem_of_find?_eq_some hfirst
  have hne := extent_of_first? hfirst
  have hmem : t ∈ lettered := by
    by_contra hnot
    refine hne (extent_of_not_mem_headed ht ?_ tail)
    unfold headed
    rwa [hstart, Bool.true_or, if_pos rfl]
  have hextent : t.extent (c :: tail) = (c :: tail).length := by
    by_cases hsame : t = .name
    · rw [hsame, hname]
    · obtain ⟨n, hn⟩ := exists_wordExtent (by simpa [lettered, hsame] using hmem) (c :: tail)
      refine Nat.le_antisymm (extent_le t _) ?_
      rw [hn] at hne ⊢
      exact wordExtent_of_isName h hne
  refine ⟨t, hmem, ?_, ?_, ?_⟩
  · rw [List.append_nil, first?_words ht, hfirst]
  · rw [List.append_nil, hextent]
  · rintro d ⟨rfl⟩
    exact isSpacing_of_isNameStart hstart

/-! ## Marks -/

theorem extent_of_pair {m : Mark} {c d : Char} (hm : m.spelling.toList = [c, d]) {rest : List Char}
    (h : rest.head? ≠ some d) : extent (.mark m) (c :: rest) = 0 := by
  refine if_neg fun hprefix => h ?_
  rw [hm, List.isPrefixOf_iff_prefix, List.prefix_cons_inj] at hprefix
  obtain ⟨tail, rfl⟩ := hprefix
  rfl

/-- A mark is read before anything that does not make it a longer one. -/
theorem lexes_mark (m : Mark) {rest : List Char}
    (h : m = .less ∨ m = .greater → rest.head? ≠ some '=' ∧ rest.head? ≠ some '>') :
    Lexes all (.mark m) m.spelling.toList rest := by
  cases m with
  | less =>
    obtain ⟨hequal, hgreater⟩ := h (.inl rfl)
    have hne : extent (.mark .less) ('<' :: rest) ≠ 0 := Nat.one_ne_zero
    have halike : all.filter (opensLike (.mark .less)) =
        [.mark .notEqual, .mark .lessEqual, .mark .less] := by decide
    have hfirst : first? all ('<' :: rest) = some (.mark .less) := by
      rw [first?_filter hne, halike, first?_cons_of_zero (extent_of_pair rfl hgreater),
        first?_cons_of_zero (extent_of_pair rfl hequal), first?_cons_of_ne hne]
    exact ⟨hfirst, rfl, by decide⟩
  | greater =>
    obtain ⟨hequal, -⟩ := h (.inr rfl)
    have hne : extent (.mark .greater) ('>' :: rest) ≠ 0 := Nat.one_ne_zero
    have halike : all.filter (opensLike (.mark .greater)) = [.mark .greaterEqual, .mark .greater] := by
      decide
    have hfirst : first? all ('>' :: rest) = some (.mark .greater) := by
      rw [first?_filter hne, halike, first?_cons_of_zero (extent_of_pair rfl hequal),
        first?_cons_of_ne hne]
    exact ⟨hfirst, rfl, by decide⟩
  | _ => exact ⟨first?_marks (by decide) (by decide) (by decide) _ _, rfl, by decide⟩

end Spreadsheet.Formula.Terminal
