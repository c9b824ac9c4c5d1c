import Spreadsheet.Proofs.Formula.Completeness
import Spreadsheet.Proofs.Formula.Parsed

/-! How far a text can be split into tokens. A part of a text is split with the rest of it present, so
that no token ends where more of it follows. The reader goes through the text in this way, until it is
stuck or has read all of it. -/
namespace Spreadsheet.Formula

/-- From a column on, `before` consists of these tokens and of blanks, where `rest` follows it. -/
inductive Scanned : Nat → List Char → List Token → List Char → Prop where
  | nil {column : Nat} {rest : List Char} : Scanned column [] [] rest
  | blank {column : Nat} {c : Char} {before rest : List Char} {ts : List Token} : isSpacing c →
    Scanned (nextColumn column c) before ts rest → Scanned column (c :: before) ts rest
  | token {column : Nat} {t : Terminal} {cs before rest : List Char} {ts : List Token} :
    Terminal.Lexes Terminal.all t cs (before ++ rest) →
      Scanned (columnAfter column cs) before ts rest →
        Scanned column (cs ++ before) (⟨t, cs, column⟩ :: ts) rest

/-! ## Columns -/

theorem columnAfter_append (column : Nat) (cs ds : List Char) :
    columnAfter column (cs ++ ds) = columnAfter (columnAfter column cs) ds := List.foldl_append

/-- In one line the columns count the characters. -/
theorem columnAfter_of_forall {cs : List Char} (h : '\n' ∉ cs) (column : Nat) :
    columnAfter column cs = column + cs.length := by
  induction cs generalizing column with
  | nil => rfl
  | cons c cs ih =>
    obtain ⟨hc, hcs⟩ := List.ne_and_not_mem_of_not_mem_cons h
    have hnext : nextColumn column c = column + 1 := if_neg (by simpa using Ne.symm hc)
    calc columnAfter column (c :: cs) = columnAfter (nextColumn column c) cs := rfl
      _ = column + (c :: cs).length := by rw [hnext, ih hcs, List.length_cons]; omega

/-- The characters behind the last line feed. -/
def lastLine (cs : List Char) : List Char := (cs.reverse.takeWhile (· != '\n')).reverse

theorem lastLine_concat (cs : List Char) (c : Char) :
    lastLine (cs ++ [c]) = if c = '\n' then [] else lastLine cs ++ [c] := by
  unfold lastLine
  rw [List.reverse_concat]
  split
  · rename_i hc
    rw [List.takeWhile_cons_of_neg (by simpa using hc), List.reverse_nil]
  · rename_i hc
    rw [List.takeWhile_cons_of_pos (by simpa using hc), List.reverse_cons]

theorem length_lastLine_le (cs : List Char) : (lastLine cs).length ≤ cs.length := by
  unfold lastLine
  have hle := (List.takeWhile_prefix (· != '\n') (l := cs.reverse)).length_le
  rwa [List.length_reverse] at hle ⊢

theorem lastLine_of_not_mem {cs : List Char} (h : '\n' ∉ cs) : lastLine cs = cs := by
  have hall : ∀ c ∈ cs.reverse, (c != '\n') = true := by
    intro c hc
    rw [bne_iff_ne]
    rintro rfl
    exact h (List.mem_reverse.mp hc)
  unfold lastLine
  rw [← List.append_nil cs.reverse, List.takeWhile_append_of_pos hall, List.takeWhile_nil,
    List.append_nil, List.reverse_reverse]

/-- The column of a character counts those before it in its line. -/
theorem columnAfter_one (cs : List Char) : columnAfter 1 cs = (lastLine cs).length + 1 := by
  induction cs using List.reverseRecOn with
  | nil => rfl
  | append_singleton cs c ih =>
    rw [columnAfter_append, ih, lastLine_concat]
    change nextColumn _ c = _
    unfold nextColumn
    by_cases hc : c = '\n' <;> simp [hc]

/-! ## Extents -/

namespace Terminal

open Text (isAsciiDigit isAsciiLetter)

theorem run_le (p : Char → Bool) (cs : List Char) : run p cs ≤ cs.length :=
  (List.takeWhile_prefix p).length_le

theorem dollar_le (cs : List Char) : dollar cs ≤ cs.length := by
  unfold dollar
  split
  · exact Nat.succ_le_succ (Nat.zero_le _)
  · exact Nat.zero_le _

/-- What starts behind the first `k` characters ends with the text. -/
theorem add_drop_le {k : Nat} {cs : List Char} (hk : k ≤ cs.length) {n : Nat}
    (hn : n ≤ (cs.drop k).length) : k + n ≤ cs.length := by
  rw [List.length_drop] at hn
  omega

theorem wordExtent_le (cs : List Char) (n : Nat) : wordExtent cs n ≤ n := by
  unfold wordExtent
  split
  · exact Nat.le_refl n
  · exact Nat.zero_le n

theorem length_le_of_startsWith {spelling cs : List Char} (h : startsWith spelling cs) :
    spelling.length ≤ cs.length := by
  induction spelling generalizing cs with
  | nil => exact Nat.zero_le _
  | cons letter spelling ih =>
    cases cs with
    | nil => contradiction
    | cons c cs =>
      rw [startsWith, Bool.and_eq_true] at h
      exact Nat.succ_le_succ (ih h.2)

theorem boolExtent_le (cs : List Char) : boolExtent cs ≤ cs.length := by
  unfold boolExtent
  split
  · rename_i h
    exact Nat.le_trans (wordExtent_le cs 4) (length_le_of_startsWith h)
  split
  · rename_i h
    exact Nat.le_trans (wordExtent_le cs 5) (length_le_of_startsWith h)
  · exact Nat.zero_le _

theorem errorExtent_le (cs : List Char) : errorExtent cs ≤ cs.length := by
  unfold errorExtent
  split
  · rename_i code h
    have hstarts : startsWith code cs := by simpa using List.find?_some h
    exact length_le_of_startsWith hstarts
  · exact Nat.zero_le _

theorem rowColumnExtent_le (cs : List Char) : rowColumnExtent cs ≤ cs.length := by
  unfold rowColumnExtent
  split
  · exact Nat.zero_le _
  · rename_i r rest
    dsimp only
    split
    · exact Nat.zero_le _
    · rename_i c tail htail
      have hlength := congrArg List.length htail
      have hcols := run_le isAsciiDigit tail
      rw [List.length_drop, List.length_cons] at hlength
      split
      · refine Nat.le_trans (wordExtent_le _ _) ?_
        rw [List.length_cons]
        omega
      · exact Nat.zero_le _

theorem cellExtent_le (cs : List Char) : cellExtent cs ≤ cs.length := by
  have hletters := add_drop_le (dollar_le cs) (run_le isAsciiLetter (cs.drop (dollar cs)))
  have hmark := add_drop_le hletters (dollar_le _)
  have hdigits := add_drop_le hmark (run_le isAsciiDigit _)
  unfold cellExtent
  dsimp only
  split
  · exact Nat.le_trans (wordExtent_le _ _) hdigits
  · exact Nat.zero_le _

theorem nameExtent_le (cs : List Char) : nameExtent cs ≤ cs.length := by
  unfold nameExtent
  split
  · exact Nat.zero_le _
  · split
    · exact Nat.succ_le_succ (run_le _ _)
    · exact Nat.zero_le _

theorem exponentExtent_le (cs : List Char) : exponentExtent cs ≤ cs.length := by
  cases cs with
  | nil => exact Nat.zero_le _
  | cons e rest =>
    have hdigits : ∀ sign, (if run isAsciiDigit (rest.drop sign) = 0 then 0
        else run isAsciiDigit (rest.drop sign) + sign + 1) ≤ (e :: rest).length := by
      intro sign
      have hle := run_le isAsciiDigit (rest.drop sign)
      rw [List.length_drop] at hle
      rw [List.length_cons]
      split <;> omega
    unfold exponentExtent
    dsimp only
    split
    · exact hdigits _
    · exact Nat.zero_le _

theorem numberExtent_le (cs : List Char) : numberExtent cs ≤ cs.length := by
  have hwhole := run_le isAsciiDigit cs
  unfold numberExtent
  dsimp only
  split
  · rename_i rest hrest
    have hexponent := exponentExtent_le (rest.drop (run isAsciiDigit rest))
    have hfraction := run_le isAsciiDigit rest
    have hlength := congrArg List.length hrest
    rw [List.length_drop, List.length_cons] at hlength
    rw [List.length_drop] at hexponent
    split <;> omega
  · split
    · exact Nat.zero_le _
    · exact add_drop_le hwhole (exponentExtent_le _)

theorem textExtentFrom_le (size pairEnd : Nat) (cs : List Char) :
    textExtentFrom size pairEnd cs ≤ max pairEnd (size + cs.length) := by
  fun_induction textExtentFrom size pairEnd cs with
  | case1 => exact Nat.le_max_left _ _
  | case2 size pairEnd rest ih => simp only [List.length_cons]; omega
  | case3 size pairEnd rest _ => simp only [List.length_cons]; omega
  | case4 size pairEnd c rest _ _ ih => simp only [List.length_cons]; omega

theorem textExtent_le (cs : List Char) : textExtent cs ≤ cs.length := by
  unfold textExtent
  split
  · rename_i rest
    have hle := textExtentFrom_le 1 0 rest
    rw [List.length_cons]
    omega
  · exact Nat.zero_le _

theorem markExtent_le (m : Mark) (cs : List Char) : markExtent m cs ≤ cs.length := by
  unfold markExtent
  split
  · rename_i h
    exact (List.isPrefixOf_iff_prefix.mp h).length_le
  · exact Nat.zero_le _

/-- A token ends with the text. -/
theorem extent_le : (t : Terminal) → (cs : List Char) → t.extent cs ≤ cs.length
  | .rowColumn => rowColumnExtent_le
  | .errorCode => errorExtent_le
  | .bool => boolExtent_le
  | .cell => cellExtent_le
  | .name => nameExtent_le
  | .number => numberExtent_le
  | .text => textExtent_le
  | .mark m => markExtent_le m

/-- What is taken off a text where a token starts. -/
theorem lexes_take {candidates : List Terminal} {t : Terminal} {c : Char} {tail : List Char}
    (hspacing : ¬isSpacing c) (hfirst : first? candidates (c :: tail) = some t) :
    Lexes candidates t ((c :: tail).take (t.extent (c :: tail)))
      ((c :: tail).drop (t.extent (c :: tail))) := by
  refine ⟨by rwa [List.take_append_drop], ?_, ?_⟩
  · rw [List.take_append_drop, List.length_take, Nat.min_eq_left (extent_le t _)]
  · obtain ⟨n, hn⟩ := Nat.exists_eq_succ_of_ne_zero (extent_of_first? hfirst)
    rw [hn, List.take_succ_cons]
    rintro d ⟨rfl⟩
    exact Bool.eq_false_iff.mpr hspacing

end Terminal

namespace Terminal.Lexes

variable {candidates : List Terminal} {t : Terminal} {cs rest : List Char}

/-- A token has a first character, which is no blank. -/
theorem exists_cons (h : Lexes candidates t cs rest) : ∃ c tail, cs = c :: tail ∧ ¬isSpacing c := by
  cases cs with
  | nil => exact absurd h.extent (extent_of_first? h.first)
  | cons c tail => exact ⟨c, tail, rfl, by simpa using h.not_spacing c rfl⟩

theorem sound (h : Lexes candidates t cs rest) (column : Nat) : Token.Sound ⟨t, cs, column⟩ := by
  have hsound := sound_take h.first column
  rwa [h.extent, List.take_left] at hsound

/-- A mark has one spelling. -/
theorem mark {m : Mark} (h : Lexes candidates (.mark m) cs rest) : cs = m.spelling.toList := by
  have hextent : markExtent m (cs ++ rest) = cs.length := h.extent
  have hne : markExtent m (cs ++ rest) ≠ 0 := extent_of_first? h.first
  unfold markExtent at hextent hne
  split at hextent
  · rename_i hprefix
    rw [← String.length_toList] at hextent
    have htake := List.prefix_iff_eq_take.mp (List.isPrefixOf_iff_prefix.mp hprefix)
    rw [htake, hextent, List.take_left]
  · rename_i hnone
    exact absurd (if_neg hnone) hne

end Terminal.Lexes

/-- A token as it is taken off a text. -/
def Token.Lexed (token : Token) : Prop :=
  ∃ rest, Terminal.Lexes Terminal.all token.terminal token.chars rest

theorem Token.Lexed.sound {token : Token} (h : token.Lexed) : token.Sound := by
  obtain ⟨rest, hlexes⟩ := h
  exact hlexes.sound token.column

theorem Token.Lexed.mark {token : Token} (h : token.Lexed) {m : Mark}
    (hmark : token.terminal = .mark m) : token.chars = m.spelling.toList := by
  obtain ⟨rest, hlexes⟩ := h
  rw [hmark] at hlexes
  exact hlexes.mark

/-! ## Whole texts -/

/-- A text can be split into tokens if all of it can. -/
theorem tokensFrom_eq_some {column : Nat} {cs : List Char} {ts : List Token} :
    tokensFrom column cs = some ts ↔ Scanned column cs ts [] := by
  constructor
  · intro h
    induction column, cs using tokensFrom.induct generalizing ts with
    | case1 column =>
      rw [tokensFrom] at h
      cases h
      exact .nil
    | case2 column c tail hspacing ih =>
      rw [tokensFrom, if_pos hspacing] at h
      exact .blank hspacing (ih h)
    | case3 column c tail hspacing hnone =>
      obtain ⟨t, hfirst, -⟩ := (tokensFrom_cons hspacing).mp h
      rw [hnone] at hfirst
      contradiction
    | case4 column c tail hspacing t hfirst extent =>
      rename_i hzero
      exact absurd hzero (Terminal.extent_of_first? hfirst)
    | case5 column c tail hspacing t hfirst extent token hpos =>
      rename_i ih
      obtain ⟨t', hfirst', ts, hts, rfl⟩ := (tokensFrom_cons hspacing).mp h
      cases hfirst.symm.trans hfirst'
      have hlexes := Terminal.lexes_take hspacing hfirst
      rw [← List.append_nil ((c :: tail).drop _)] at hlexes
      have hscanned := Scanned.token hlexes (ih hts)
      rwa [List.take_append_drop] at hscanned
  · generalize hrest : [] = rest
    intro h
    induction h with
    | nil => rw [tokensFrom]
    | blank hspacing _ ih => rw [tokensFrom, if_pos hspacing, ih hrest]
    | @token column t cs before rest ts hlexes _ ih =>
      cases hrest
      rw [List.append_nil] at hlexes
      obtain ⟨c, tail, rfl, hspacing⟩ := hlexes.exists_cons
      rw [List.cons_append, tokensFrom_cons hspacing, ← List.cons_append]
      refine ⟨t, hlexes.first, ts, ?_, ?_⟩
      · rw [hlexes.extent, List.take_left, List.drop_left, ih rfl]
      · rw [hlexes.extent, List.take_left]

theorem Scanned.lexes {column : Nat} {before rest : List Char} {ts : List Token}
    (h : Scanned column before ts rest) : ∀ token ∈ ts, token.Lexed := by
  induction h with
  | nil => simp
  | blank _ _ ih => exact ih
  | token hlexes _ ih => exact List.forall_mem_cons.mpr ⟨⟨_, hlexes⟩, ih⟩

/-! ## Readers -/

/-- What `closers` names ends parentheses, or the formula. -/
theorem closers_cases {frames : List Frame} {wanted : Expected} (h : wanted ∈ closers frames) :
    wanted = .terminal (.mark .close) ∨ wanted = .terminal (.mark .comma) ∨ wanted = .finish := by
  unfold closers at h
  split at h
  · exact .inl (List.mem_singleton.mp h)
  · exact (List.mem_pair.mp h).imp_right .inl
  · exact .inr (.inr (List.mem_singleton.mp h))

namespace Reader

/-- What a reader names as expected: classes of tokens that it asks the text for, and the end only where
it has an operand, or where no call is open behind whose parenthesis it would stand. -/
structure Offers (r : Reader) (expected : List Expected) : Prop where
  terminal : ∀ t, .terminal t ∈ expected → t ∈ r.focus.candidates
  finish : .finish ∈ expected → r.focus.draft?.isSome ∨
    r.focus = .operand true ∧ ∀ name drafts frames, r.frames ≠ .call name drafts :: frames

/-- The errors of a reader of `text` that has come to `rest` and a column. -/
inductive Stuck (text : List Char) (r : Reader) (column : Nat) : List Char → ParseError → Prop where
  | finish {expected : List Expected} : (∀ draft, ¬r.Ends draft) → r.Offers expected →
    Stuck text r column [] (.unexpectedEnd text.length expected)
  | token {token : Token} {rest : List Char} {expected : List Expected} :
    Terminal.Lexes Terminal.all token.terminal token.chars rest → token.column = column →
      r.accept? token = none → r.Offers expected →
        Stuck text r column (token.chars ++ rest) (.unexpectedToken token expected)
  | character {c : Char} {tail : List Char} {expected : List Expected} : ¬isSpacing c →
    Terminal.first? Terminal.all (c :: tail) = none → r.Offers expected →
      Stuck text r column (c :: tail)
        (.unexpectedCharacter (text.getD (column - 1) ' ') column expected)

theorem Stuck.offers {text rest : List Char} {r : Reader} {column : Nat} {e : ParseError}
    (h : r.Stuck text column rest e) : r.Offers e.expectations := by
  cases h with
  | finish _ hoffers => exact hoffers
  | token _ _ _ hoffers => exact hoffers
  | character _ _ hoffers => exact hoffers

section

variable {r : Reader} {draft : Draft} (hdraft : r.focus.draft? = some draft)

theorem offers_candidates (r : Reader) : r.Offers (r.focus.candidates.map .terminal) where
  terminal t ht := by
    obtain ⟨t, ht, ⟨⟩⟩ := List.mem_map.mp ht
    exact ht
  finish h := by
    obtain ⟨t, -, ⟨⟩⟩ := List.mem_map.mp h

include hdraft

theorem offers_followers : r.Offers (.finish :: Focus.operandFollowers.map .terminal) where
  terminal t ht := by
    obtain ⟨t, ht, ⟨⟩⟩ := List.mem_map.mp ((List.mem_cons.mp ht).resolve_left (by simp))
    exact mem_candidates_of_draft? hdraft ht
  finish _ := .inl (by rw [hdraft]; rfl)

theorem offers_closers (frames : List Frame) : r.Offers (closers frames) where
  terminal t ht := by
    rcases closers_cases ht with ⟨⟨⟩⟩ | ⟨⟨⟩⟩ | ⟨⟨⟩⟩ <;>
      exact mem_candidates_of_draft? hdraft (by decide)
  finish _ := .inl (by rw [hdraft]; rfl)

end

/-- Where an argument or the closing parenthesis of a call is due, but no call is open. -/
theorem offers_stray {frames : List Frame}
    (h : ∀ name drafts tail, frames ≠ .call name drafts :: tail) :
    Offers ⟨frames, .operand true⟩ (closers frames) where
  terminal t ht := by
    unfold closers at ht
    split at ht
    · cases List.mem_singleton.mp ht
      exact List.mem_append_right _ (List.mem_singleton.mpr rfl)
    · exact absurd rfl (h _ _ _)
    · cases List.mem_singleton.mp ht
  finish _ := .inr ⟨rfl, h⟩

theorem finish_eq_error {size : Nat} {r : Reader} {e : ParseError} (h : r.finish size = .error e) :
    (∃ expected, e = .unexpectedEnd size expected ∧ r.Offers expected) ∧ ∀ draft, ¬r.Ends draft := by
  refine ⟨?_, fun draft hends => by rw [finish_eq_ok.mpr hends] at h; contradiction⟩
  unfold finish at h
  split at h
  · cases h
    exact ⟨_, rfl, r.offers_candidates⟩
  · rename_i hdraft
    split at h <;> cases h
    exact ⟨_, rfl, offers_closers hdraft _⟩

theorem takeMark_eq_error {r : Reader} {draft : Draft} {token : Token} {mark : Mark}
    {e : ParseError} (hdraft : r.focus.draft? = some draft)
    (h : takeMark r.frames draft token mark = .error e) :
    ∃ expected, e = .unexpectedToken token expected ∧ r.Offers expected := by
  unfold takeMark at h
  split at h
  · contradiction
  · contradiction
  · split at h <;> cases h
    exact ⟨_, rfl, offers_closers hdraft _⟩
  · split at h <;> cases h
    exact ⟨_, rfl, offers_closers hdraft _⟩
  · split at h <;> cases h
    exact ⟨_, rfl, offers_followers hdraft⟩

theorem take_eq_error {r : Reader} {token : Token} {e : ParseError} (h : r.take token = .error e) :
    (∃ expected, e = .unexpectedToken token expected ∧ r.Offers expected) ∧
      r.accept? token = none := by
  constructor
  · obtain ⟨frames, focus⟩ := r
    unfold take at h
    split at h
    · rename_i hfocus _
      cases hfocus
      split at h
      · contradiction
      · rename_i hframes
        cases h
        exact ⟨_, rfl, offers_stray hframes⟩
    all_goals first
      | contradiction
      | (rename_i hfocus _; cases hfocus; exact takeMark_eq_error rfl h)
      | cases h; exact ⟨_, rfl, offers_candidates _⟩
  · unfold accept?
    rw [h, Except.toOption, ite_self]

/-- A reader that finds none of the tokens it asks for. -/
theorem stuck_misfit {r : Reader} {c : Char} {tail : List Char} (hspacing : ¬isSpacing c)
    (hnone : Terminal.first? r.focus.candidates (c :: tail) = none) (text : List Char) (column : Nat) :
    r.Stuck text column (c :: tail) (misfit text (c :: tail) column r.focus.candidates) := by
  unfold misfit
  dsimp only
  split
  · rename_i t hfirst
    have hlexes := Terminal.lexes_take hspacing hfirst
    have haccept : r.accept? ⟨t, (c :: tail).take (t.extent (c :: tail)), column⟩ = none := by
      refine if_neg fun hmem => ?_
      rw [Terminal.first?_candidates.mpr ⟨hfirst, hmem⟩] at hnone
      contradiction
    have hstuck : r.Stuck text column _ (.unexpectedToken _ (r.focus.candidates.map .terminal)) :=
      .token hlexes rfl haccept r.offers_candidates
    rwa [List.take_append_drop] at hstuck
  · rename_i hfirst
    exact .character hspacing hfirst r.offers_candidates

end Reader

/-- Where the reading of a text ends with an error, it has split the text up to there and has taken the
tokens. -/
theorem exists_stuck {text rest : List Char} {r : Reader} {column : Nat} {e : ParseError}
    (h : readFrom text r column rest = .error e) : ∃ before ts rest' r', rest = before ++ rest' ∧
      Scanned column before ts rest' ∧ r.run ts = some r' ∧
        r'.Stuck text (columnAfter column before) rest' e := by
  fun_induction readFrom text r column rest with
  | case1 r column =>
    obtain ⟨⟨expected, rfl, hoffers⟩, hends⟩ := Reader.finish_eq_error h
    exact ⟨[], [], [], r, rfl, .nil, rfl, .finish hends hoffers⟩
  | case2 r column c tail hspacing ih =>
    obtain ⟨before, ts, rest', r', rfl, hscanned, hrun, hstuck⟩ := ih h
    exact ⟨c :: before, ts, rest', r', rfl, .blank hspacing hscanned, hrun, hstuck⟩
  | case3 r column c tail hspacing hfirst =>
    cases h
    exact ⟨[], [], c :: tail, r, rfl, .nil, rfl, Reader.stuck_misfit hspacing hfirst text column⟩
  | case4 r column c tail hspacing t hfirst extent hzero =>
    exact absurd hzero (Terminal.extent_of_first? hfirst)
  | case5 r column c tail hspacing t hfirst extent token hpos e' htake =>
    cases h
    obtain ⟨⟨expected, rfl, hoffers⟩, haccept⟩ := Reader.take_eq_error htake
    have hlexes := Terminal.lexes_take hspacing (Terminal.first?_all hfirst)
    refine ⟨[], [], c :: tail, r, rfl, .nil, rfl, ?_⟩
    have hstuck : r.Stuck text column _ (.unexpectedToken token expected) :=
      .token hlexes rfl haccept hoffers
    rwa [List.take_append_drop] at hstuck
  | case6 r column c tail hspacing t hfirst extent token hpos next htake ih =>
    obtain ⟨before, ts, rest', r', heq, hscanned, hrun, hstuck⟩ := ih h
    have hlexes := Terminal.lexes_take hspacing (Terminal.first?_all hfirst)
    refine ⟨token.chars ++ before, token :: ts, rest', r', ?_, ?_, ?_, ?_⟩
    · rw [List.append_assoc, ← heq, List.take_append_drop]
    · exact .token (heq ▸ hlexes) hscanned
    · exact Reader.run_cons_eq_some.mpr ⟨next, Reader.accept?_eq_some.mpr
        ⟨List.mem_of_find?_eq_some hfirst, htake⟩, hrun⟩
    · rwa [columnAfter_append]

end Spreadsheet.Formula
