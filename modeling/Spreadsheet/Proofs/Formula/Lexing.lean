import Mathlib.Tactic.ByContra
import Spreadsheet.Proofs.Formula.Tokens

/-! Texts as token sequences. The reader asks the text only for the tokens that it can take, but it
never finds another token than the first that starts at a place, so that a text can be split into tokens
before it is read. -/
namespace Spreadsheet.Formula

namespace Terminal

open Text (isAsciiDigit isAsciiLetter)

/-! ## Marks -/

/-- Whether two classes are marks that start with the same character. -/
def opensLike : Terminal → Terminal → Bool
  | .mark m, .mark m' => m.spelling.toList.head? == m'.spelling.toList.head?
  | _, _ => false

theorem exists_cons_of_mark {m : Mark} {cs : List Char} (h : extent (.mark m) cs ≠ 0) :
    ∃ c rest, cs = c :: rest ∧ m.spelling.toList.head? = some c := by
  have hpre : m.spelling.toList.isPrefixOf cs := by
    by_contra hnone
    exact h (if_neg hnone)
  cases hchars : m.spelling.toList with
  | nil => cases m <;> contradiction
  | cons d ds =>
    rw [hchars] at hpre
    cases cs with
    | nil => contradiction
    | cons c rest =>
      rw [List.isPrefixOf, Bool.and_eq_true, beq_iff_eq] at hpre
      exact ⟨c, rest, rfl, by rw [hpre.1]; rfl⟩

/-- Where a mark starts, nothing starts but marks with the same first character. -/
theorem extent_eq_zero {m : Mark} {cs : List Char} (h : extent (.mark m) cs ≠ 0) {t : Terminal}
    (ht : opensLike (.mark m) t = false) : t.extent cs = 0 := by
  obtain ⟨c, rest, rfl, hc⟩ := exists_cons_of_mark h
  obtain ⟨hletter, hdigit, herror, hcell, hpoint, hquote⟩ : isNameStart c = false ∧
      isAsciiDigit c = false ∧ c ≠ '#' ∧ c ≠ '$' ∧ c ≠ '.' ∧ c ≠ '"' := by
    cases m <;> cases hc <;> decide
  obtain ⟨hrow, hbool, hreference, hname⟩ := word_extents_eq_zero hletter hcell rest
  cases t with
  | rowColumn => exact hrow
  | errorCode => exact errorExtent_cons herror rest
  | bool => exact hbool
  | cell => exact hreference
  | name => exact hname
  | number => exact numberExtent_cons hdigit hpoint rest
  | text => exact textExtent_cons hquote rest
  | mark m' =>
    by_contra hne
    obtain ⟨c', rest', heq, hc'⟩ := exists_cons_of_mark hne
    obtain ⟨rfl, rfl⟩ := List.cons.inj heq
    change (m.spelling.toList.head? == m'.spelling.toList.head?) = false at ht
    rw [hc, hc', beq_self_eq_true] at ht
    contradiction

theorem first?_filter {m : Mark} {cs : List Char} (h : extent (.mark m) cs ≠ 0) (ts : List Terminal) :
    first? ts cs = first? (ts.filter (opensLike (.mark m))) cs := by
  unfold first?
  rw [List.find?_filter]
  congr 1
  funext t
  cases ht : opensLike (.mark m) t with
  | true => simp only [true_and, Bool.decide_eq_true]
  | false => simp [extent_eq_zero h ht]

/-! ## What the reader asks for -/

def candidateLists : List (List Terminal) :=
  [Focus.operandStarts, Focus.operandStarts ++ [.mark .close], [.mark .open], [.rowColumn, .cell],
    Focus.operandFollowers ++ [.mark .colon], Focus.operandFollowers]

theorem candidates_mem : (focus : Focus) → focus.candidates ∈ candidateLists
  | .operand false => .head _
  | .operand true => .tail _ (.head _)
  | .name _ => .tail _ (.tail _ (.head _))
  | .corner _ => .tail _ (.tail _ (.tail _ (.head _)))
  | .reference _ | .range _ => .tail _ (.tail _ (.tail _ (.tail _ (.head _))))
  | .complete _ => .tail _ (.tail _ (.tail _ (.tail _ (.tail _ (.head _)))))

/-- The reader asks for all marks that start alike or for none of them. -/
theorem filter_candidates : ∀ ts ∈ candidateLists, ∀ t ∈ ts,
    ts.filter (opensLike t) = all.filter (opensLike t) := by
  decide

/-! ## Words -/

theorem exists_getElem?_of_startsWith {spelling cs : List Char} (h : startsWith spelling cs) {i : Nat}
    {letter : Char} (hi : spelling[i]? = some letter) : ∃ c, cs[i]? = some c ∧ isCaseOf letter c := by
  induction spelling generalizing cs i with
  | nil => contradiction
  | cons first spelling ih =>
    cases cs with
    | nil => contradiction
    | cons c cs =>
      rw [startsWith, Bool.and_eq_true] at h
      cases i with
      | zero =>
        cases hi
        exact ⟨c, rfl, h.1⟩
      | succ i => exact ih h.2 hi

/-- A reference has a mark or a digit among its first four characters. -/
theorem cellExtent_eq_zero {cs : List Char}
    (h : ∀ i < 4, ∃ c, cs[i]? = some c ∧ c ≠ '$' ∧ isAsciiDigit c = false) : cellExtent cs = 0 := by
  have hdollar : ∀ i < 4, dollar (cs.drop i) = 0 := by
    intro i hi
    obtain ⟨c, hc, hmark, -⟩ := h i hi
    apply dollar_of_ne
    rw [List.head?_drop, hc]
    simpa using hmark
  have hdigits : ∀ i < 4, run isAsciiDigit (cs.drop i) = 0 := by
    intro i hi
    obtain ⟨c, hc, -, hdigit⟩ := h i hi
    refine run_of_stops fun d hd => ?_
    rw [List.head?_drop, hc] at hd
    cases hd
    exact hdigit
  have hfixed : dollar cs = 0 := hdollar 0 (by omega)
  unfold cellExtent
  simp only [hfixed, Nat.zero_add, List.drop_zero]
  split
  · rename_i hbounds
    simp only [Bool.and_eq_true, decide_eq_true_eq] at hbounds
    have hletters := hbounds.1.2
    rw [hdollar _ (by omega), Nat.add_zero, hdigits _ (by omega)] at hbounds
    exact absurd hbounds.2 (by decide)
  · rfl

/-- What starts with four letters is no reference. -/
theorem startsWith_of_cellExtent {cs : List Char} (h : cellExtent cs ≠ 0) {spelling : List Char}
    (hlength : 4 ≤ spelling.length) (hletters : ∀ letter ∈ spelling, isCaseOf letter '$' = false ∧
      isAsciiDigit letter = false ∧ isAsciiDigit letter.toLower = false) :
    startsWith spelling cs = false := by
  by_contra hstarts
  refine h (cellExtent_eq_zero fun i hi => ?_)
  have hi : i < spelling.length := by omega
  obtain ⟨hmark, hupper, hlower⟩ := hletters _ (List.getElem_mem hi)
  obtain ⟨c, hc, hcase⟩ := exists_getElem?_of_startsWith (Bool.eq_true_of_not_eq_false hstarts)
    (List.getElem?_eq_getElem hi)
  refine ⟨c, hc, ?_, Bool.eq_false_iff.mpr fun hdigit => ?_⟩
  · rintro rfl
    rw [hmark] at hcase
    contradiction
  · rw [isCaseOf_of_isAsciiDigit hupper hlower hdigit] at hcase
    contradiction

/-- What is read as a reference is no truth value. -/
theorem bool_extent_of_cell {cs : List Char} (h : extent .cell cs ≠ 0) : extent .bool cs = 0 := by
  change boolExtent cs = 0
  unfold boolExtent
  rw [startsWith_of_cellExtent h (by decide) (by decide),
    startsWith_of_cellExtent h (by decide) (by decide)]
  rfl

/-- What is read as a reference is no code. -/
theorem errorCode_extent_of_cell {cs : List Char} (h : extent .cell cs ≠ 0) :
    extent .errorCode cs = 0 := by
  cases cs with
  | nil => rfl
  | cons c rest =>
    apply errorExtent_cons
    rintro rfl
    have hzero : cellExtent ('#' :: rest) = 0 := cellExtent_cons (by decide) (by decide) rest
    exact h hzero

/-! ## The first token -/

/-- The classes that are no marks. -/
def words : List Terminal := [.rowColumn, .errorCode, .bool, .cell, .name, .number, .text]

theorem mem_words_or_mark : (t : Terminal) → t ∈ words ∨ ∃ m, t = .mark m
  | .mark m => .inr ⟨m, rfl⟩
  | .rowColumn | .errorCode | .bool | .cell | .name | .number | .text => .inl (by decide)

/-- Where the reader asks for words, it asks for all of them before any mark, or for references only. -/
theorem candidates_words : ∀ ts ∈ candidateLists, (∀ t ∈ ts, t ∉ words) ∨ ts = [.rowColumn, .cell] ∨
    ts = words ++ ts.drop 7 ∧ ∀ t ∈ ts.drop 7, t ∉ words := by
  decide

theorem first?_append_left {ts us : List Terminal} {cs : List Char} {t : Terminal} (ht : t ∉ us)
    (h : first? (ts ++ us) cs = some t) : first? ts cs = some t := by
  unfold first? at h ⊢
  rw [List.find?_append, Option.or_eq_some_iff] at h
  rcases h with h | ⟨-, h⟩
  · exact h
  · exact absurd (List.mem_of_find?_eq_some h) ht

/-- The first token of those that a reader asks for is the first of all. -/
theorem first?_all {focus : Focus} {cs : List Char} {t : Terminal}
    (h : first? focus.candidates cs = some t) : first? all cs = some t := by
  have hne := extent_of_first? h
  have hmem : t ∈ focus.candidates := List.mem_of_find?_eq_some h
  rcases mem_words_or_mark t with hword | ⟨m, rfl⟩
  · rcases candidates_words _ (candidates_mem focus) with hnone | heq | ⟨heq, hmarks⟩
    · exact absurd hword (hnone t hmem)
    · rw [heq] at h hmem
      unfold all
      rcases List.mem_pair.mp hmem with rfl | rfl
      · exact first?_cons_of_ne hne
      · have hrow : extent .rowColumn cs = 0 := by
          by_contra hrow
          rw [first?_cons_of_ne hrow] at h
          cases h
        rw [first?_cons_of_zero hrow, first?_cons_of_zero (errorCode_extent_of_cell hne),
          first?_cons_of_zero (bool_extent_of_cell hne), first?_cons_of_ne hne]
    · rw [heq] at h
      exact first?_append (first?_append_left (fun ht => hmarks t ht hword) h)
  · rw [first?_filter hne, ← filter_candidates _ (candidates_mem focus) _ hmem, ← first?_filter hne, h]

/-- The reader finds the first token of all if it can take it. -/
theorem first?_candidates {focus : Focus} {cs : List Char} {t : Terminal} :
    first? focus.candidates cs = some t ↔ first? all cs = some t ∧ t ∈ focus.candidates := by
  refine ⟨fun h => ⟨first?_all h, List.mem_of_find?_eq_some h⟩, fun ⟨h, hmem⟩ => ?_⟩
  cases hfirst : first? focus.candidates cs with
  | none =>
    have hzero := List.find?_eq_none.mp hfirst t hmem
    exact absurd (extent_of_first? h) (by simpa using hzero)
  | some t' =>
    rw [first?_all hfirst] at h
    exact h

end Terminal

/-! ## Texts -/

/-- Splits the rest of a text into tokens, from a column on. -/
def tokensFrom (column : Nat) (rest : List Char) : Option (List Token) :=
  match rest with
  | [] => some []
  | c :: tail =>
    if isSpacing c then tokensFrom (nextColumn column c) tail
    else
      match Terminal.first? Terminal.all (c :: tail) with
      | none => none
      | some t =>
        let extent := t.extent (c :: tail)
        let token : Token := ⟨t, (c :: tail).take extent, column⟩
        if extent = 0 then none
        else (tokensFrom (columnAfter column token.chars) ((c :: tail).drop extent)).map (token :: ·)
termination_by rest.length
decreasing_by
  · simp
  · simp only [List.length_drop, List.length_cons]; omega

/-- The tokens of a text, its equal sign included. -/
def tokens? (s : String) : Option (List Token) := tokensFrom 1 (Text.trim s.toList)

namespace Reader

/-- What the reader makes of a token, if it is one of those asked for. -/
def accept? (r : Reader) (token : Token) : Option Reader :=
  if token.terminal ∈ r.focus.candidates then (r.take token).toOption else none

/-- What the reader makes of a row of tokens. -/
def run (r : Reader) (ts : List Token) : Option Reader := ts.foldlM accept? r

theorem run_append (r : Reader) (ts us : List Token) : r.run (ts ++ us) = (r.run ts).bind (·.run us) :=
  List.foldlM_append

theorem accept?_eq_some {r r' : Reader} {token : Token} :
    r.accept? token = some r' ↔ token.terminal ∈ r.focus.candidates ∧ r.take token = .ok r' := by
  unfold accept?
  split
  · rename_i hmem
    cases r.take token <;> simp [hmem, Except.toOption]
  · rename_i hmem
    simp [hmem]

theorem run_cons_eq_some {r r' : Reader} {token : Token} {ts : List Token} :
    r.run (token :: ts) = some r' ↔ ∃ next, r.accept? token = some next ∧ next.run ts = some r' :=
  Option.bind_eq_some_iff

/-- Whether a formula may end here, with a draft of all of it. -/
def Ends (r : Reader) (draft : Draft) : Prop :=
  ∃ last, r.focus.draft? = some last ∧ reduce 0 r.frames last = ([], draft)

theorem finish_eq_ok {size : Nat} {r : Reader} {draft : Draft} :
    r.finish size = .ok draft ↔ r.Ends draft := by
  unfold finish Ends
  cases r.focus.draft? with
  | none => simp
  | some last =>
    rcases hreduce : reduce 0 r.frames last with ⟨_ | ⟨frame, frames⟩, result⟩ <;> simp [hreduce]

end Reader

section

variable {text rest : List Char} {r : Reader} {column : Nat}

/-- A text whose first character is part of a token. -/
theorem tokensFrom_cons {c : Char} {tail : List Char} (hspacing : ¬isSpacing c) {ts : List Token} :
    tokensFrom column (c :: tail) = some ts ↔
      ∃ t, Terminal.first? Terminal.all (c :: tail) = some t ∧
        ∃ ts', tokensFrom (columnAfter column ((c :: tail).take (t.extent (c :: tail))))
            ((c :: tail).drop (t.extent (c :: tail))) = some ts' ∧
          ⟨t, (c :: tail).take (t.extent (c :: tail)), column⟩ :: ts' = ts := by
  rw [tokensFrom, if_neg hspacing]
  cases hfirst : Terminal.first? Terminal.all (c :: tail) with
  | none => simp
  | some t => simp [Terminal.extent_of_first? hfirst]

/-- The first token of a text is taken if it is one of those that the reader asks for. -/
theorem exists_tokens_iff {c : Char} {tail : List Char} (hspacing : ¬isSpacing c)
    {p : Reader → Prop} :
    (∃ ts r', tokensFrom column (c :: tail) = some ts ∧ r.run ts = some r' ∧ p r') ↔
      ∃ t, Terminal.first? r.focus.candidates (c :: tail) = some t ∧
        ∃ next, r.take ⟨t, (c :: tail).take (t.extent (c :: tail)), column⟩ = .ok next ∧
          ∃ ts r', tokensFrom (columnAfter column ((c :: tail).take (t.extent (c :: tail))))
            ((c :: tail).drop (t.extent (c :: tail))) = some ts ∧ next.run ts = some r' ∧ p r' := by
  constructor
  · rintro ⟨_, r', hts, hrun, hp⟩
    obtain ⟨t, hfirst, ts, hrest, rfl⟩ := (tokensFrom_cons hspacing).mp hts
    obtain ⟨next, haccept, hrun⟩ := Reader.run_cons_eq_some.mp hrun
    obtain ⟨hmem, htake⟩ := Reader.accept?_eq_some.mp haccept
    exact ⟨t, Terminal.first?_candidates.mpr ⟨hfirst, hmem⟩, next, htake, ts, r', hrest, hrun, hp⟩
  · rintro ⟨t, hfirst, next, htake, ts, r', hrest, hrun, hp⟩
    obtain ⟨hall, hmem⟩ := Terminal.first?_candidates.mp hfirst
    exact ⟨_, r', (tokensFrom_cons hspacing).mpr ⟨t, hall, ts, hrest, rfl⟩,
      Reader.run_cons_eq_some.mpr ⟨next, Reader.accept?_eq_some.mpr ⟨hmem, htake⟩, hrun⟩, hp⟩

/-- To read a text is to split it into tokens and to take these one after the other. -/
theorem readFrom_eq_ok {draft : Draft} : readFrom text r column rest = .ok draft ↔
    ∃ ts r', tokensFrom column rest = some ts ∧ r.run ts = some r' ∧ r'.Ends draft := by
  fun_induction readFrom text r column rest with
  | case1 r column =>
    rw [Reader.finish_eq_ok, tokensFrom]
    refine ⟨fun h => ⟨[], r, rfl, rfl, h⟩, fun ⟨ts, r', hts, hrun, h⟩ => ?_⟩
    cases hts
    cases hrun
    exact h
  | case2 r column c tail hspacing ih => rw [ih, tokensFrom, if_pos hspacing]
  | case3 r column c tail hspacing hfirst =>
    refine ⟨fun h => by contradiction, fun h => ?_⟩
    obtain ⟨t, ht, -⟩ := (exists_tokens_iff hspacing).mp h
    cases hfirst.symm.trans ht
  | case4 r column c tail hspacing t hfirst extent hzero =>
    exact absurd hzero (Terminal.extent_of_first? hfirst)
  | case5 r column c tail hspacing t hfirst extent token hpos e htake =>
    refine ⟨fun h => by contradiction, fun h => ?_⟩
    obtain ⟨t', ht, next, hnext, -⟩ := (exists_tokens_iff hspacing).mp h
    cases hfirst.symm.trans ht
    cases htake.symm.trans hnext
  | case6 r column c tail hspacing t hfirst extent token hpos next htake ih =>
    rw [ih, exists_tokens_iff hspacing]
    refine ⟨fun h => ⟨t, hfirst, next, htake, h⟩, fun ⟨t', ht, next', hnext, h⟩ => ?_⟩
    cases hfirst.symm.trans ht
    cases htake.symm.trans hnext
    exact h

end

/-! ## Syntax errors -/

/-- Whether a text is refused for the tokens in it or their order, and not for what one of them says or
for the number of levels. -/
def ParseError.isSyntactic : ParseError → Bool
  | .noEqualSign | .unexpectedCharacter .. | .unexpectedToken .. | .unexpectedEnd .. => true
  | _ => false

namespace Reader

variable {e : ParseError}

theorem isSyntactic_finish {size : Nat} {r : Reader} (h : r.finish size = .error e) : e.isSyntactic := by
  unfold finish at h
  split at h
  · cases h
    rfl
  · split at h <;> cases h
    rfl

theorem isSyntactic_takeMark {frames : List Frame} {draft : Draft} {token : Token} {mark : Mark}
    (h : takeMark frames draft token mark = .error e) : e.isSyntactic := by
  unfold takeMark at h
  split at h
  · contradiction
  · contradiction
  · split at h <;> cases h
    rfl
  · split at h <;> cases h
    rfl
  · split at h <;> cases h
    rfl

theorem isSyntactic_take {r : Reader} {token : Token} (h : r.take token = .error e) :
    e.isSyntactic := by
  unfold take at h
  split at h
  · split at h <;> cases h
    rfl
  all_goals first
    | contradiction
    | exact isSyntactic_takeMark h
    | cases h; rfl

end Reader

theorem isSyntactic_misfit (text rest : List Char) (column : Nat) (candidates : List Terminal) :
    (misfit text rest column candidates).isSyntactic := by
  unfold misfit
  dsimp only
  split <;> rfl

theorem isSyntactic_readFrom {text rest : List Char} {r : Reader} {column : Nat} {e : ParseError}
    (h : readFrom text r column rest = .error e) : e.isSyntactic := by
  fun_induction readFrom text r column rest with
  | case1 r column => exact Reader.isSyntactic_finish h
  | case2 r column c tail hspacing ih => exact ih h
  | case3 r column c tail hspacing hfirst =>
    cases h
    exact isSyntactic_misfit ..
  | case4 r column c tail hspacing t hfirst extent hzero =>
    cases h
    exact isSyntactic_misfit ..
  | case5 r column c tail hspacing t hfirst extent token hpos e htake =>
    cases h
    exact Reader.isSyntactic_take htake
  | case6 r column c tail hspacing t hfirst extent token hpos next htake ih => exact ih h

theorem isSyntactic_draft? {s : String} {e : ParseError} (h : draft? s = .error e) : e.isSyntactic := by
  unfold draft? at h
  split at h
  · exact isSyntactic_readFrom h
  · cases h
    rfl

/-! ## Whole texts -/

theorem isBlank_of_isSpacing {c : Char} (h : isSpacing c) : Text.isBlank c := by
  unfold isSpacing at h
  simp only [Bool.or_eq_true, beq_iff_eq] at h
  rcases h with (((rfl | rfl) | rfl) | rfl) | rfl <;> decide

theorem extent_equal (rest : List Char) : Terminal.extent (.mark .equal) ('=' :: rest) = 1 := rfl

theorem first?_equal (rest : List Char) :
    Terminal.first? Terminal.all ('=' :: rest) = some (.mark .equal) := by
  have hne : Terminal.extent (.mark .equal) ('=' :: rest) ≠ 0 := by
    rw [extent_equal]
    decide
  have hfilter : Terminal.all.filter (Terminal.opensLike (.mark .equal)) = [.mark .equal] := by decide
  rw [Terminal.first?_filter hne, hfilter, Terminal.first?_cons_of_ne hne]

/-- A text is read after its equal sign, which is the first of its tokens. -/
theorem draft?_eq_ok {s : String} {draft : Draft} : draft? s = .ok draft ↔
    ∃ equal ts r, tokens? s = some (equal :: ts) ∧ equal.terminal = .mark .equal ∧
      Reader.start.run ts = some r ∧ r.Ends draft := by
  have hspacing : ¬isSpacing '=' := by decide
  unfold draft? tokens?
  split
  · rename_i rest heq
    rw [heq, readFrom_eq_ok]
    constructor
    · rintro ⟨ts, r, hts, hrun, hends⟩
      exact ⟨_, ts, r, (tokensFrom_cons hspacing).mpr ⟨_, first?_equal rest, ts, hts, rfl⟩, rfl, hrun,
        hends⟩
    · rintro ⟨equal, ts, r, hts, -, hrun, hends⟩
      obtain ⟨t, hfirst, ts', hrest, heq⟩ := (tokensFrom_cons hspacing).mp hts
      rw [first?_equal] at hfirst
      cases hfirst
      cases heq
      exact ⟨ts, r, hrest, hrun, hends⟩
  · rename_i hnone
    refine ⟨fun h => by contradiction, ?_⟩
    rintro ⟨equal, ts, r, hts, hterminal, -⟩
    have hstops := Text.stops_trim s.toList
    cases hchars : Text.trim s.toList with
    | nil =>
      rw [hchars, tokensFrom] at hts
      cases hts
    | cons c rest =>
      rw [hchars] at hts hstops
      have hblank : ¬isSpacing c := fun h => by
        have hblank := isBlank_of_isSpacing h
        rw [Text.stops_cons.mp hstops] at hblank
        contradiction
      obtain ⟨t, hfirst, ts', -, heq⟩ := (tokensFrom_cons hblank).mp hts
      obtain ⟨rfl, -⟩ := List.cons.inj heq
      cases hterminal
      obtain ⟨c', rest', hcons, hc⟩ := Terminal.exists_cons_of_mark (Terminal.extent_of_first? hfirst)
      obtain ⟨rfl, rfl⟩ := List.cons.inj hcons
      cases hc
      exact absurd hchars (hnone rest)

end Spreadsheet.Formula
