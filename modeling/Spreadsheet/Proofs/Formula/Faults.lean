import Spreadsheet.Proofs.Formula.Prefixes
import Spreadsheet.Proofs.Formula.Scanning

/-! Where a text is no formula. A syntax error stands at the first place where no formula goes on: some
formula begins with the tokens before it, and none goes on with what stands there. Only where the tokens
are those of a formula is a number, a reference or a code refused, and then the first one that is out of
range. -/
namespace Spreadsheet.Formula

/-! ## Tokens out of range -/

/-- The error of the first of these tokens that is out of range. -/
def FirstFault (ts : List Token) (e : ParseError) : Prop :=
  ∃ before token after, ts = before ++ token :: after ∧ (∀ t ∈ before, t.Readable) ∧
    token.terminal ∈ Terminal.literals ++ Terminal.references ∧ Draft.readLeaf token = .error e

/-- A computation goes through these tokens from left to right and ends at the first one that is out of
range, if it does not find too many levels before. -/
structure Examines {α : Type} (ts : List Token) (x : Except ParseError α) : Prop where
  readable : ∀ a, x = .ok a → ∀ token ∈ ts, token.Readable
  fault : ∀ e, x = .error e → e = .tooDeep ∨ FirstFault ts e

theorem Token.readable_of_not_mem {token : Token}
    (h : token.terminal ∉ Terminal.literals ++ Terminal.references) : token.Readable :=
  fun hmem => absurd hmem h

theorem Token.readable_mark {token : Token} {mark : Mark} (h : token.terminal = .mark mark) :
    token.Readable := readable_of_not_mem (by rw [h]; simp [Terminal.literals, Terminal.references])

namespace FirstFault

variable {ts us : List Token} {e : ParseError}

theorem append (h : FirstFault ts e) (us : List Token) : FirstFault (ts ++ us) e := by
  obtain ⟨before, token, after, rfl, hbefore, htoken⟩ := h
  exact ⟨before, token, after ++ us, by simp, hbefore, htoken⟩

theorem append_left (h : FirstFault ts e) (hus : ∀ t ∈ us, t.Readable) : FirstFault (us ++ ts) e := by
  obtain ⟨before, token, after, rfl, hbefore, htoken⟩ := h
  exact ⟨us ++ before, token, after, by simp, List.forall_mem_append.mpr ⟨hus, hbefore⟩, htoken⟩

end FirstFault

namespace Examines

variable {α β γ : Type} {ts us : List Token} {token : Token} {x : Except ParseError α}
  {y : Except ParseError β}

theorem ok (h : ∀ token ∈ ts, token.Readable) (a : α) :
    Examines ts (.ok a : Except ParseError α) :=
  ⟨fun _ _ => h, fun _ herror => by contradiction⟩

theorem error {e : ParseError} (h : e = .tooDeep ∨ FirstFault ts e) :
    Examines ts (.error e : Except ParseError α) :=
  ⟨fun _ hok => by contradiction, fun _ herror => by cases herror; exact h⟩

theorem nil (a : α) : Examines [] (.ok a : Except ParseError α) := .ok (by simp) a

theorem one (h : Examines ts x) (g : α → β) : Examines ts (do return g (← x)) := by
  cases x with
  | ok a => exact .ok (h.readable a rfl) (g a)
  | error e => exact .error (h.fault e rfl)

theorem both (hx : Examines ts x) (hy : Examines us y) (g : α → β → γ) :
    Examines (ts ++ us) (do return g (← x) (← y)) := by
  cases x with
  | error e => exact .error ((hx.fault e rfl).imp_right (·.append us))
  | ok a =>
    have hts := hx.readable a rfl
    cases y with
    | ok b => exact .ok (List.forall_mem_append.mpr ⟨hts, hy.readable b rfl⟩) (g a b)
    | error e => exact .error ((hy.fault e rfl).imp_right (·.append_left hts))

/-- A token that is no number, reference or code. -/
theorem cons (h : Examines ts x) (htoken : token.Readable) : Examines (token :: ts) x := by
  have hone : ∀ t ∈ [token], t.Readable := by simpa using htoken
  exact ⟨fun a ha => List.forall_mem_cons.mpr ⟨htoken, h.readable a ha⟩,
    fun e he => (h.fault e he).imp_right (·.append_left hone)⟩

theorem concat (h : Examines ts x) (htoken : token.Readable) : Examines (ts ++ [token]) x :=
  ⟨fun a ha => List.forall_mem_append.mpr ⟨h.readable a ha, by simpa using htoken⟩, fun e he =>
    (h.fault e he).imp_right (·.append [token])⟩

/-- A check of the number of levels in front. -/
theorem ite {p : Prop} [Decidable p] (h : Examines ts x) :
    Examines ts (if p then .error .tooDeep else x) := by
  split
  · exact .error (.inl rfl)
  · exact h

theorem leaf (htoken : token.terminal ∈ Terminal.literals ++ Terminal.references) :
    Examines [token] (Draft.readLeaf token) := by
  constructor
  · intro f hf t ht
    cases List.mem_singleton.mp ht
    exact fun _ => by rw [hf]; rfl
  · exact fun e he => .inr ⟨[], token, [], rfl, by simp, htoken, he⟩

end Examines

namespace Derivation

theorem examines_readAddress {token : Token} (htoken : token.terminal ∈ Terminal.references) :
    Examines [token] (Draft.readAddress token) := by
  have hleaf := Examines.leaf (List.mem_append_right Terminal.literals htoken)
  rw [readLeaf_reference htoken] at hleaf
  exact ⟨fun a ha => hleaf.readable (.cell a) (by rw [ha]; rfl),
    fun e he => hleaf.fault e (by rw [he]; rfl)⟩

theorem examines_single : (reference : Derivation .reference) → (depth : Nat) →
    Examines reference.tokens ((Draft.leaf reference.draft).resolveAt depth)
  | .address token htoken, depth => by
    rw [draft, Draft.resolveAt]
    exact (Examines.leaf (List.mem_append_right _ htoken)).ite

/-- A derivation is read from left to right. -/
theorem examines {s : Symbol} (d : Derivation s) (depth : Nat) :
    Examines d.tokens (s.resolveAt depth d.draft) := by
  induction d generalizing depth with
  | start _ _ hequal ih => exact (ih depth).cons (Token.readable_mark hequal)
  | pass _ _ ih => exact ih depth
  | group _ _ _ hopening hclosing ih =>
    exact ((ih depth).concat (Token.readable_mark hclosing)).cons (Token.readable_mark hopening)
  | binary _ op token _ hop ihl ihr =>
    obtain ⟨mark, hmark, -⟩ := Symbol.Reads.binaryOp?_of_operator? hop
    exact .ite (.both (ihl _) ((ihr _).cons (Token.readable_mark hmark)) (Formula.binary op))
  | power _ _ _ hcaret ihl ihr =>
    exact .ite (.both (ihl _) ((ihr _).cons (Token.readable_mark hcaret)) (Formula.binary .power))
  | sign op token _ hsign ih =>
    have htoken : token.Readable := Token.readable_of_not_mem fun hmem => by
      rcases List.mem_append.mp hmem with hmem | hmem
      · rw [(Terminal.literals_start _ hmem).2] at hsign
        contradiction
      · rw [(Terminal.references_start _ hmem).2] at hsign
        contradiction
    exact .ite (.one ((ih _).cons htoken) (Formula.unary op))
  | percent _ _ hpercent ih =>
    exact .ite (.one ((ih _).concat (Token.readable_mark hpercent)) (Formula.unary .percent))
  | call name _ _ _ hname hopening hclosing ih =>
    have htoken : name.Readable := Token.readable_of_not_mem (by rw [hname]; decide)
    exact .ite (.one ((((ih _).concat (Token.readable_mark hclosing)).cons
      (Token.readable_mark hopening)).cons htoken) (Formula.call _))
  | literal _ htoken => exact .ite (.leaf (List.mem_append_left _ htoken))
  | range _ _ _ hcolon ihf ihl =>
    exact .ite (.both (ihf depth) ((ihl depth).cons (Token.readable_mark hcolon)) Formula.range)
  | single reference _ => exact examines_single reference depth
  | address _ htoken => exact examines_readAddress htoken
  | arguments _ _ ihf ihr => exact .both (ihf depth) (ihr depth) List.cons
  | noArguments => exact .nil []
  | further _ _ _ hcomma ihf ihr =>
    exact (Examines.both (ihf depth) (ihr depth) List.cons).cons (Token.readable_mark hcomma)
  | noFurther => exact .nil []

end Derivation

/-! ## Syntax errors -/

/-- What stands behind these tokens goes on no formula. -/
inductive Halts (ts : List Token) : List Char → ParseError → Prop where
  | finish {size : Nat} {expected : List Expected} : (∀ d : Derivation .start, d.tokens ≠ ts) →
    Halts ts [] (.unexpectedEnd size expected)
  | token {token : Token} {rest : List Char} {expected : List Expected} :
    Terminal.Lexes Terminal.all token.terminal token.chars rest → ¬Begins (ts ++ [token]) →
      Halts ts (token.chars ++ rest) (.unexpectedToken token expected)
  | character {c : Char} {tail : List Char} {shown : Char} {column : Nat} {expected : List Expected} :
    ¬isSpacing c → Terminal.first? Terminal.all (c :: tail) = none →
      Halts ts (c :: tail) (.unexpectedCharacter shown column expected)

section

variable {text rest : List Char} {r : Reader} {column : Nat} {e : ParseError} {equal : Token}
  {ts : List Token}

theorem Reader.Stuck.halts (h : r.Stuck text column rest e) (hrun : Reader.start.run ts = some r) :
    Halts (equal :: ts) rest e := by
  cases h with
  | finish hends => exact .finish (ne_tokens_of_not_ends hrun hends)
  | token hlexes _ haccept => exact .token hlexes (not_begins_of_accept? hrun haccept)
  | character hspacing hnone => exact .character hspacing hnone

theorem Reader.Stuck.position {before : List Char} (h : r.Stuck text column rest e)
    (htext : text = before ++ rest) (hcolumn : column = before.length + 1) :
    e.position = some (before.length + 1) := by
  cases h with
  | finish _ => rw [htext, List.append_nil]; rfl
  | token _ heq _ => rw [← hcolumn, ← heq]; rfl
  | character _ _ => rw [← hcolumn]; rfl

end

theorem draft?_of_isSyntactic {s : String} {e : ParseError} (h : parse s = .error e)
    (hsyntactic : e.isSyntactic) : draft? s = .error e := by
  rcases bind_eq_error.mp h with hdraft | ⟨draft, -, hresolve⟩
  · exact hdraft
  · rw [Draft.grammatical_resolveAt 0 draft e hresolve] at hsyntactic
    contradiction

/-- A syntax error of a text that starts with an equal sign is that of a stuck reader. -/
theorem exists_stuck_of_parse {s : String} {e : ParseError} (h : parse s = .error e)
    (hsyntactic : e.isSyntactic) : e = .noEqualSign ∨ ∃ before rest equal ts r,
      Text.trim s.toList = before ++ rest ∧ Scanned 1 before (equal :: ts) rest ∧
        equal.terminal = .mark .equal ∧ Reader.start.run ts = some r ∧
          r.Stuck (Text.trim s.toList) (columnAfter 1 before) rest e := by
  have hdraft := draft?_of_isSyntactic h hsyntactic
  unfold draft? at hdraft
  split at hdraft
  · rename_i tail htrim
    obtain ⟨before, ts, rest, r, rfl, hscanned, hrun, hstuck⟩ := exists_stuck hdraft
    have hlexes : Terminal.Lexes Terminal.all (.mark .equal) ['='] (before ++ rest) :=
      ⟨first?_equal _, extent_equal _, by decide⟩
    refine .inr ⟨'=' :: before, rest, _, ts, r, htrim, .token hlexes hscanned, rfl, hrun, ?_⟩
    rwa [htrim]
  · cases hdraft
    exact .inl rfl

/-- The errors of a text without line feeds. A syntax error stands where the text before it, but for
blanks, is split into tokens that a formula begins with, and what follows is no token, or one that no
formula goes on with, or nothing, while those tokens are no formula. A number, a reference or a code is
refused only if the tokens of the text are those of a formula, and then it is the first one out of
range. -/
theorem fault_of_parse {s : String} {e : ParseError} (h : parse s = .error e)
    (hline : '\n' ∉ Text.trim s.toList) :
    (e.isSyntactic → e ≠ .noEqualSign → ∃ before rest ts, Text.trim s.toList = before ++ rest ∧
      Scanned 1 before ts rest ∧ e.position = some (before.length + 1) ∧ Begins ts ∧
        Halts ts rest e) ∧
    (e.isSyntactic = false → e ≠ .tooDeep →
      ∃ d : Derivation .start, tokens? s = some d.tokens ∧ FirstFault d.tokens e) := by
  constructor
  · intro hsyntactic hequal
    obtain ⟨before, rest, equal, ts, r, htrim, hscanned, hterminal, hrun, hstuck⟩ :=
      (exists_stuck_of_parse h hsyntactic).resolve_left hequal
    rw [htrim, List.mem_append, not_or] at hline
    have hcolumn : columnAfter 1 before = before.length + 1 := by
      rw [columnAfter_of_forall hline.1, Nat.add_comm]
    exact ⟨before, rest, equal :: ts, htrim, hscanned, hstuck.position htrim hcolumn,
      begins_cons.mpr ⟨hterminal, r, hrun⟩, hstuck.halts hrun⟩
  · intro hsyntactic hdeep
    have hgrammatical : Grammatical (parse s) := by
      rw [h]
      exact .error hsyntactic
    obtain ⟨d, htokens⟩ := grammatical_parse_iff.mp hgrammatical
    rw [parse_of_tokens? htokens] at h
    exact ⟨d, htokens, ((d.examines 0).fault e h).resolve_left hdeep⟩

/-- The comma after `A0` calls for an argument, so that the parenthesis is refused and not `A0`. Where
nothing is missing the number is refused, since it stands to the left of `R0C1`. -/
theorem fault_of_parse_comma_and_number :
    (∃ e, parse "=SUM(A0,)" = .error e ∧ e.isSyntactic ∧ e ≠ .noEqualSign ∧ e.position = some 9 ∧
      ∃ before rest ts, Text.trim "=SUM(A0,)".toList = before ++ rest ∧ Scanned 1 before ts rest ∧
        e.position = some (before.length + 1) ∧ Begins ts ∧ Halts ts rest e) ∧
    (∃ e, parse "=1+1e999*R0C1" = .error e ∧ e.isSyntactic = false ∧ e ≠ .tooDeep ∧
      e.position = some 4 ∧
      ∃ d : Derivation .start, tokens? "=1+1e999*R0C1" = some d.tokens ∧ FirstFault d.tokens e) ∧
    '\n' ∉ Text.trim "=SUM(A0,)".toList ∧ '\n' ∉ Text.trim "=1+1e999*R0C1".toList := by
  have hcommaLine : '\n' ∉ Text.trim "=SUM(A0,)".toList := by decide +kernel
  have hnumberLine : '\n' ∉ Text.trim "=1+1e999*R0C1".toList := by decide +kernel
  obtain ⟨comma, hcomma, hcommaTest⟩ : ∃ e, parse "=SUM(A0,)" = .error e ∧
      (e.isSyntactic && e.position == some 9) := exists_error_of_test (by decide +kernel)
  obtain ⟨number, hnumber, hnumberTest⟩ : ∃ e, parse "=1+1e999*R0C1" = .error e ∧
      (!e.isSyntactic && e.position == some 4) := exists_error_of_test (by decide +kernel)
  simp only [Bool.and_eq_true, Bool.not_eq_true', beq_iff_eq] at hcommaTest hnumberTest
  have hequal : comma ≠ .noEqualSign := by
    rintro rfl
    exact absurd hcommaTest.2 (by decide)
  have hdeep : number ≠ .tooDeep := by
    rintro rfl
    exact absurd hnumberTest.2 (by decide)
  exact ⟨⟨comma, hcomma, hcommaTest.1, hequal, hcommaTest.2,
      (fault_of_parse hcomma hcommaLine).1 hcommaTest.1 hequal⟩,
    ⟨number, hnumber, hnumberTest.1, hdeep, hnumberTest.2,
      (fault_of_parse hnumber hnumberLine).2 hnumberTest.1 hdeep⟩, hcommaLine, hnumberLine⟩

/-! ## Characters that start no token -/

/-- The character that is reported as one that starts no token. The text before the fault is split into
tokens and blanks, and no token starts at the character that follows. Reported is the character of the
whole text that stands as far behind its start as the faulty one behind the last line feed: the faulty
one itself, if no line feed stands before it. -/
theorem shown_of_parse {s : String} {shown : Char} {column : Nat} {expected : List Expected}
    (h : parse s = .error (.unexpectedCharacter shown column expected)) :
    ∃ before c tail ts, Text.trim s.toList = before ++ c :: tail ∧ Scanned 1 before ts (c :: tail) ∧
      ¬isSpacing c ∧ Terminal.first? Terminal.all (c :: tail) = none ∧
      column = (lastLine before).length + 1 ∧
      (Text.trim s.toList)[(lastLine before).length]? = some shown ∧
      ('\n' ∉ before → shown = c) := by
  obtain ⟨before, rest, equal, ts, r, htrim, hscanned, -, -, hstuck⟩ :=
    (exists_stuck_of_parse h rfl).resolve_left (by simp)
  rw [columnAfter_one] at hstuck
  cases hstuck with
  | @character c tail _ hspacing hnone =>
    have hlength : (lastLine before).length < (Text.trim s.toList).length := by
      have hle := length_lastLine_le before
      rw [htrim, List.length_append, List.length_cons]
      omega
    have hshown : (Text.trim s.toList)[(lastLine before).length]? =
        some ((Text.trim s.toList).getD (lastLine before).length ' ') := by
      rw [List.getD_eq_getElem?_getD, List.getElem?_eq_getElem hlength, Option.getD_some]
    refine ⟨before, c, tail, equal :: ts, htrim, hscanned, hspacing, hnone, rfl, hshown, fun hline => ?_⟩
    rw [lastLine_of_not_mem hline, htrim] at hshown ⊢
    simp

/-- In the second line of `=1+` and `?`, the equal sign is reported, which is the first character of the
first line. -/
theorem shown_of_parse_second_line : ∃ expected,
    parse "=1+\n?" = .error (.unexpectedCharacter '=' 1 expected) ∧
    ∃ before c tail ts, Text.trim "=1+\n?".toList = before ++ c :: tail ∧
      Scanned 1 before ts (c :: tail) ∧ ¬isSpacing c ∧
      Terminal.first? Terminal.all (c :: tail) = none ∧ 1 = (lastLine before).length + 1 ∧
      (Text.trim "=1+\n?".toList)[(lastLine before).length]? = some '=' ∧
      ('\n' ∉ before → '=' = c) := by
  obtain ⟨e, hparse, htest⟩ := exists_error_of_test (x := parse "=1+\n?") (p := fun
    | .unexpectedCharacter shown column _ => shown == '=' && column == 1
    | _ => false) (by decide +kernel)
  cases e with
  | unexpectedCharacter shown column expected =>
    simp only [Bool.and_eq_true, beq_iff_eq] at htest
    obtain ⟨rfl, rfl⟩ := htest
    exact ⟨expected, hparse, shown_of_parse hparse⟩
  | _ => contradiction

end Spreadsheet.Formula
