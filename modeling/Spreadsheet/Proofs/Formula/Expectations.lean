import Spreadsheet.Proofs.Formula.Faults

/-! What an error names as expected. The reader asks for its classes of tokens by what it has read last,
without regard to the parentheses around it. So it names a closing parenthesis where none is open, a comma
outside the arguments of a call, a colon behind a whole range and the end inside parentheses, and
everything else that it names can indeed come next. -/
namespace Spreadsheet.Formula

/-! ## Open parentheses -/

/-- A parenthesis around an operand, or that of a call. -/
inductive Parenthesis where
  | group
  | call
deriving DecidableEq

def lastTerminal? (ts : List Token) : Option Terminal := ts.getLast?.map Token.terminal

/-- The parentheses that are open behind tokens, which stand here with the last one first. -/
def openBack : List Token → List Parenthesis
  | [] => []
  | token :: before =>
    match token.terminal with
    | .mark .open =>
      (if before.head?.map Token.terminal = some .name then .call else .group) :: openBack before
    | .mark .close => (openBack before).tail
    | _ => openBack before

/-- The parentheses that are open behind tokens, the innermost one first. A name makes the parenthesis
behind it that of a call. -/
def openAfter (ts : List Token) : List Parenthesis := openBack ts.reverse

/-- Whether parentheses and colons allow a token of this class behind others. -/
def Admits (ts : List Token) : Terminal → Prop
  | .mark .close => openAfter ts ≠ []
  | .mark .comma => (openAfter ts).head? = some .call
  | .mark .colon => lastTerminal? ts.dropLast ≠ some (.mark .colon)
  | _ => True

section

variable {ts : List Token} {token : Token}

theorem lastTerminal?_concat (ts : List Token) (token : Token) :
    lastTerminal? (ts ++ [token]) = some token.terminal := by
  unfold lastTerminal?
  rw [List.getLast?_concat, Option.map_some]

theorem openAfter_open (h : token.terminal = .mark .open) : openAfter (ts ++ [token]) =
    (if lastTerminal? ts = some .name then .call else .group) :: openAfter ts := by
  unfold openAfter lastTerminal?
  rw [List.reverse_concat, openBack, h, List.head?_reverse]

theorem openAfter_close (h : token.terminal = .mark .close) :
    openAfter (ts ++ [token]) = (openAfter ts).tail := by
  unfold openAfter
  rw [List.reverse_concat, openBack, h]

theorem openAfter_other (hopen : token.terminal ≠ .mark .open) (hclose : token.terminal ≠ .mark .close) :
    openAfter (ts ++ [token]) = openAfter ts := by
  unfold openAfter
  rw [List.reverse_concat, openBack]
  split
  · contradiction
  · contradiction
  · rfl

end

/-! ## Frames -/

def Frame.parenthesis? : Frame → Option Parenthesis
  | .group => some .group
  | .call _ _ => some .call
  | _ => none

def parentheses (frames : List Frame) : List Parenthesis := frames.filterMap Frame.parenthesis?

/-- Operators are completed inside the parentheses. -/
theorem parentheses_reduce (level : Nat) (frames : List Frame) (draft : Draft) :
    parentheses (reduce level frames draft).1 = parentheses frames := by
  fun_induction reduce level frames draft with
  | case1 op frames draft ih => exact ih
  | case2 left op frames draft _ ih => exact ih
  | case3 => rfl
  | case4 => rfl

/-- What is left when everything inside the innermost parentheses is completed. -/
inductive Innermost : List Frame → Prop where
  | none : Innermost []
  | group {frames : List Frame} : Innermost (.group :: frames)
  | call {name : Token} {drafts : List Draft} {frames : List Frame} :
    Innermost (.call name drafts :: frames)

theorem innermost_reduce (frames : List Frame) (draft : Draft) :
    Innermost (reduce 0 frames draft).1 := by
  induction frames generalizing draft with
  | nil => exact .none
  | cons frame frames ih =>
    cases frame with
    | unary op => exact ih _
    | binary left op =>
      rw [reduce, if_pos (Nat.zero_le _)]
      exact ih _
    | group => exact .group
    | call name drafts => exact .call

theorem Innermost.eq_nil {frames : List Frame} (h : Innermost frames) (hnone : parentheses frames = []) :
    frames = [] := by
  cases h with
  | none => rfl
  | group | call => contradiction

/-! ## Where a reader stands -/

/-- What the last tokens of a row tell of what is due behind it. -/
def Focus.Follows (row : List Token) : Focus → Prop
  | .operand _ => lastTerminal? row ≠ some .name ∧ lastTerminal? row ≠ some (.mark .colon)
  | .name _ => lastTerminal? row = some .name
  | .reference _ => lastTerminal? row.dropLast ≠ some (.mark .colon)
  | .corner _ => lastTerminal? row = some (.mark .colon)
  | .range _ => lastTerminal? row.dropLast = some (.mark .colon)
  | .complete _ => True

/-- A reader stands behind a row of tokens: the parentheses of its frames are those open in the row. -/
structure Reader.Stands (r : Reader) (row : List Token) : Prop where
  opened : openAfter row = parentheses r.frames
  follows : r.focus.Follows row

namespace Reader.Stands

variable {r r' : Reader} {frames : List Frame} {flag : Bool} {row ts : List Token} {token : Token}
  {draft : Draft} {mark : Mark}

/-- Behind a token that is no parenthesis. -/
theorem other (h : openAfter row = parentheses frames) (hopen : token.terminal ≠ .mark .open)
    (hclose : token.terminal ≠ .mark .close) :
    openAfter (row ++ [token]) = parentheses frames := by
  rw [openAfter_other hopen hclose, h]

/-- Behind a parenthesis that closes the innermost one. -/
theorem closed {parenthesis : Parenthesis} (h : openAfter row = parenthesis :: parentheses frames)
    (hclose : token.terminal = .mark .close) : openAfter (row ++ [token]) = parentheses frames := by
  rw [openAfter_close hclose, h, List.tail_cons]

theorem takeOperand (h : Stands ⟨frames, .operand flag⟩ row)
    (htoken : token.terminal ∈ Focus.operandStarts) :
    (Reader.takeOperand frames token).Stands (row ++ [token]) := by
  obtain ⟨hopened, hname, hcolon⟩ := h
  have hlast := lastTerminal?_concat row token
  rcases Reached.operandStarts_cases _ htoken with hreference | hliteral | hsign | hname' | hopen
  · rw [takeOperand_reference hreference]
    refine ⟨other hopened (ne_of_mem_of_not_mem hreference (by decide))
      (ne_of_mem_of_not_mem hreference (by decide)), ?_⟩
    rwa [Focus.Follows, List.dropLast_concat]
  · rw [takeOperand_literal hliteral]
    exact ⟨other hopened (ne_of_mem_of_not_mem hliteral (by decide))
      (ne_of_mem_of_not_mem hliteral (by decide)), trivial⟩
  · obtain ⟨op, hsign⟩ := Option.isSome_iff_exists.mp hsign
    rw [takeOperand_sign hsign]
    have hne : ∀ t : Terminal, t.sign? = none → token.terminal ≠ t := by
      rintro t ht rfl
      rw [ht] at hsign
      contradiction
    refine ⟨other hopened (hne _ rfl) (hne _ rfl), ?_⟩
    rw [Focus.Follows, hlast]
    exact ⟨fun heq => hne _ rfl (Option.some.inj heq), fun heq => hne _ rfl (Option.some.inj heq)⟩
  · rw [takeOperand_name hname']
    refine ⟨other hopened (by simp [hname']) (by simp [hname']), ?_⟩
    rw [Focus.Follows, hlast, hname']
  · rw [takeOperand_open hopen]
    refine ⟨?_, ?_⟩
    · rw [openAfter_open hopen, if_neg hname, hopened]
      rfl
    · rw [Focus.Follows, hlast, hopen]
      simp

theorem takeMark (hopened : openAfter row = parentheses frames)
    (hmark : token.terminal = .mark mark)
    (htake : Reader.takeMark frames draft token mark = .ok r') : r'.Stands (row ++ [token]) := by
  have hlast := lastTerminal?_concat row token
  have hreduced (level : Nat) := hopened.trans (parentheses_reduce level frames draft).symm
  unfold Reader.takeMark at htake
  split at htake
  · cases htake
    exact ⟨other hopened (by simp [hmark]) (by simp [hmark]), trivial⟩
  · cases htake
    refine ⟨other hopened (by simp [hmark]) (by simp [hmark]), ?_⟩
    rw [Focus.Follows, hlast, hmark]
    simp
  · split at htake
    · rename_i frames' draft' heq
      cases htake
      have hbefore := hreduced 0
      rw [heq] at hbefore
      exact ⟨closed hbefore hmark, trivial⟩
    · rename_i name drafts frames' draft' heq
      cases htake
      have hbefore := hreduced 0
      rw [heq] at hbefore
      exact ⟨closed hbefore hmark, trivial⟩
    · contradiction
  · split at htake
    · rename_i name drafts frames' draft' heq
      cases htake
      have hbefore := hreduced 0
      rw [heq] at hbefore
      refine ⟨other hbefore (by simp [hmark]) (by simp [hmark]), ?_⟩
      rw [Focus.Follows, hlast, hmark]
      simp
    · contradiction
  · split at htake
    · rename_i op hop
      cases htake
      have hne : mark ≠ .open ∧ mark ≠ .close ∧ mark ≠ .colon := by
        refine ⟨?_, ?_, ?_⟩ <;> rintro rfl <;> contradiction
      refine ⟨other (hreduced op.precedence) (by simp [hmark, hne]) (by simp [hmark, hne]), ?_⟩
      rw [Focus.Follows, hlast, hmark]
      simp [hne]
    · contradiction

/-- The closing parenthesis of a call without arguments. -/
theorem takeClose (hopened : openAfter row = parentheses frames)
    (hclose : token.terminal = .mark .close)
    (htake : Reader.take ⟨frames, .operand true⟩ token = .ok r') : r'.Stands (row ++ [token]) := by
  obtain ⟨terminal, cs, column⟩ := token
  cases hclose
  unfold Reader.take at htake
  dsimp only at htake
  split at htake
  · cases htake
    exact ⟨closed hopened rfl, trivial⟩
  · contradiction

/-- Each token that the reader takes leads on to a reader that stands behind it. -/
theorem accept (h : r.Stands row) (haccept : r.accept? token = some r') :
    r'.Stands (row ++ [token]) := by
  obtain ⟨hmem, htake⟩ := accept?_eq_some.mp haccept
  obtain ⟨frames, focus⟩ := r
  have hlast := lastTerminal?_concat row token
  obtain ⟨hopened, hfollows⟩ := id h
  cases focus with
  | operand flag =>
    by_cases hclose : token.terminal = .mark .close
    · cases flag with
      | false =>
        have hstart : token.terminal ∈ Focus.operandStarts := hmem
        exact absurd hclose (ne_of_mem_of_not_mem hstart (by decide))
      | true => exact takeClose hopened hclose htake
    · rw [take_operand hclose] at htake
      cases htake
      refine h.takeOperand ?_
      cases flag with
      | false => exact hmem
      | true => exact (List.mem_append.mp hmem).resolve_right fun h => hclose (List.mem_singleton.mp h)
  | name name =>
    have hopen := List.mem_singleton.mp hmem
    have hname : lastTerminal? row = some .name := hfollows
    cases htake
    refine ⟨?_, ?_⟩
    · rw [openAfter_open hopen, if_pos hname, hopened]
      rfl
    · rw [Focus.Follows, hlast, hopen]
      simp
  | corner first =>
    cases htake
    have hterminal : token.terminal ∈ [Terminal.rowColumn, .cell] := hmem
    refine ⟨other hopened (ne_of_mem_of_not_mem hterminal (by decide))
      (ne_of_mem_of_not_mem hterminal (by decide)), ?_⟩
    rwa [Focus.Follows, List.dropLast_concat]
  | reference first =>
    obtain ⟨mark, hmark⟩ := Reached.exists_mark hmem
    obtain ⟨terminal, cs, column⟩ := token
    cases hmark
    by_cases hcolon : mark = .colon
    · cases hcolon
      cases htake
      exact ⟨other hopened (by simp) (by simp), hlast⟩
    · rw [take_mark rfl hcolon] at htake
      exact takeMark hopened rfl htake
  | range draft =>
    obtain ⟨mark, hmark⟩ := Reached.exists_mark hmem
    obtain ⟨terminal, cs, column⟩ := token
    cases hmark
    exact takeMark hopened rfl htake
  | complete draft =>
    obtain ⟨mark, hmark⟩ := Reached.exists_mark (List.mem_append_left _ hmem)
    obtain ⟨terminal, cs, column⟩ := token
    cases hmark
    exact takeMark hopened rfl htake

theorem run (h : r.Stands row) (hrun : r.run ts = some r') : r'.Stands (row ++ ts) := by
  induction ts generalizing r row with
  | nil =>
    cases hrun
    rwa [List.append_nil]
  | cons token ts ih =>
    obtain ⟨next, haccept, hrest⟩ := run_cons_eq_some.mp hrun
    have hnext := ih (h.accept haccept) hrest
    rwa [List.append_assoc] at hnext

theorem start {equal : Token} (hequal : equal.terminal = .mark .equal) :
    Reader.start.Stands [equal] := by
  refine ⟨@openAfter_other [] _ (by simp [hequal]) (by simp [hequal]), ?_⟩
  change lastTerminal? ([] ++ [equal]) ≠ _ ∧ lastTerminal? ([] ++ [equal]) ≠ _
  rw [lastTerminal?_concat, hequal]
  simp

/-! ## What is taken -/

/-- A mark that may follow an operand somewhere is taken behind one, if the parentheses allow it. -/
theorem takeMark_iff (draft : Draft) (token : Token) (hopened : openAfter row = parentheses frames)
    (hmark : Terminal.mark mark ∈ Focus.operandFollowers) :
    (∃ r', Reader.takeMark frames draft token mark = .ok r') ↔ Admits row (.mark mark) := by
  rw [← parentheses_reduce 0 frames draft] at hopened
  have hinnermost := innermost_reduce frames draft
  unfold Reader.takeMark
  cases mark
  case close =>
    rw [Admits, hopened]
    generalize reduce 0 frames draft = reduced at hinnermost
    obtain ⟨frames', draft'⟩ := reduced
    cases hinnermost <;> simp [parentheses, Frame.parenthesis?]
  case comma =>
    rw [Admits, hopened]
    generalize reduce 0 frames draft = reduced at hinnermost
    obtain ⟨frames', draft'⟩ := reduced
    cases hinnermost <;> simp [parentheses, Frame.parenthesis?]
  case colon | «open» => exact absurd hmark (by decide)
  all_goals exact ⟨fun _ => trivial, fun _ => ⟨_, rfl⟩⟩

/-- The same for a reader that has an operand. -/
theorem follower_iff {last : Draft} (h : r.Stands row) (hlast : r.focus.draft? = some last)
    (hmem : token.terminal ∈ Focus.operandFollowers) :
    (∃ r', r.accept? token = some r') ↔ Admits row token.terminal := by
  obtain ⟨mark, hmark⟩ := Reached.exists_mark (List.mem_append_left _ hmem)
  rw [hmark] at hmem ⊢
  rw [← takeMark_iff last token h.opened hmem]
  constructor
  · rintro ⟨r', haccept⟩
    have htake := (accept?_eq_some.mp haccept).2
    have hcolon : mark ≠ .colon := by
      rintro rfl
      exact absurd hmem (by decide)
    obtain ⟨terminal, cs, column⟩ := token
    cases hmark
    rw [take_mark hlast hcolon] at htake
    exact ⟨r', htake⟩
  · rintro ⟨r', htake⟩
    exact ⟨r', accept?_mark hlast hmark hmem htake⟩

theorem admits_operandStart {t : Terminal} (h : t ∈ Focus.operandStarts) : Admits row t := by
  cases t with
  | mark mark =>
    cases mark
    case close | comma | colon => exact absurd h (by decide)
    all_goals trivial
  | _ => trivial

/-- Of the classes that a reader asks for it takes those that the parentheses and colons allow. -/
theorem accepts_iff (h : r.Stands row) (hreached : Reached r ts)
    (hmem : token.terminal ∈ r.focus.candidates) :
    (∃ r', r.accept? token = some r') ↔ Admits row token.terminal := by
  cases hreached with
  | operand _ =>
    have hstart : token.terminal ∈ Focus.operandStarts := hmem
    exact ⟨fun _ => admits_operandStart hstart, fun _ => ⟨_, accept?_operand hstart⟩⟩
  | @afterCall frames _ _ name _ _ _ _ =>
    rcases List.mem_append.mp hmem with hstart | hclose
    · exact ⟨fun _ => admits_operandStart hstart, fun _ => ⟨_, accept?_operand hstart⟩⟩
    · have hterminal := List.mem_singleton.mp hclose
      rw [hterminal, Admits, h.opened]
      obtain ⟨terminal, cs, column⟩ := token
      cases hterminal
      exact ⟨fun _ => by simp [parentheses, Frame.parenthesis?], fun _ => ⟨_, rfl⟩⟩
  | name _ _ =>
    rw [List.mem_singleton.mp hmem]
    exact ⟨fun _ => trivial, fun _ => ⟨_, accept?_eq_some.mpr ⟨hmem, rfl⟩⟩⟩
  | corner _ _ _ =>
    refine ⟨fun _ => ?_, fun _ => ⟨_, accept?_eq_some.mpr ⟨hmem, rfl⟩⟩⟩
    rcases List.mem_pair.mp hmem with hterminal | hterminal <;> rw [hterminal] <;> trivial
  | @reference frames _ _ first _ _ =>
    rcases List.mem_append.mp hmem with hfollower | hcolon
    · exact h.follower_iff rfl hfollower
    · have hterminal := List.mem_singleton.mp hcolon
      rw [hterminal]
      obtain ⟨terminal, cs, column⟩ := token
      cases hterminal
      exact ⟨fun _ => h.follows, fun _ => ⟨_, rfl⟩⟩
  | @range frames _ _ _ draft _ _ =>
    rcases List.mem_append.mp hmem with hfollower | hcolon
    · exact h.follower_iff rfl hfollower
    · have hterminal := List.mem_singleton.mp hcolon
      rw [hterminal]
      obtain ⟨terminal, cs, column⟩ := token
      cases hterminal
      exact ⟨fun ⟨_, haccept⟩ => by contradiction, fun hadmits => absurd h.follows hadmits⟩
  | complete _ _ =>
    exact h.follower_iff rfl hmem

/-- Behind an operand the formula may end exactly where no parenthesis is open. -/
theorem ends_iff {last : Draft} (h : r.Stands row) (hlast : r.focus.draft? = some last) :
    (∃ draft, r.Ends draft) ↔ openAfter row = [] := by
  rw [h.opened, ← parentheses_reduce 0 r.frames last]
  have hinnermost := innermost_reduce r.frames last
  constructor
  · rintro ⟨draft, last', hlast', hreduce⟩
    cases hlast.symm.trans hlast'
    rw [hreduce]
    rfl
  · intro hnone
    exact ⟨_, last, hlast, Prod.ext (hinnermost.eq_nil hnone) rfl⟩

end Reader.Stands

/-! ## Names of what is expected -/

theorem Expected.mem_all (e : Expected) : e ∈ Expected.finish :: Terminal.all.map .terminal := by
  cases e with
  | finish => exact .head _
  | terminal t =>
    refine List.mem_cons_of_mem _ (List.mem_map_of_mem ?_)
    cases t with
    | mark mark => cases mark <;> decide
    | _ => decide

/-- No two classes have one name. -/
theorem Expected.description_injective {e e' : Expected} (h : e.description = e'.description) :
    e = e' := by
  have hall : ∀ e ∈ Expected.finish :: Terminal.all.map .terminal,
      ∀ e' ∈ Expected.finish :: Terminal.all.map .terminal, e.description = e'.description → e = e' := by
    decide +kernel
  exact hall e e.mem_all e' e'.mem_all h

/-- An error names what was expected. -/
theorem description_mem_expected {e : ParseError} {wanted : Expected} :
    wanted.description ∈ e.expected ↔ wanted ∈ e.expectations := by
  unfold ParseError.expected
  rw [List.mem_mergeSort, List.mem_map]
  constructor
  · rintro ⟨wanted', hmem, hname⟩
    rwa [← Expected.description_injective hname]
  · exact fun hmem => ⟨wanted, hmem, rfl⟩

theorem terminal_mem_expected {e : ParseError} {t : Terminal} :
    t.description ∈ e.expected ↔ .terminal t ∈ e.expectations := by
  rw [← description_mem_expected]
  rfl

/-! ## Formulas -/

section

variable {r : Reader} {ts : List Token} {equal token : Token}

/-- A formula goes on with the tokens that the reader takes. -/
theorem begins_concat (hequal : equal.terminal = .mark .equal) (hrun : Reader.start.run ts = some r) :
    Begins (equal :: ts ++ [token]) ↔ ∃ r', r.accept? token = some r' := by
  rw [List.cons_append, begins_cons]
  constructor
  · rintro ⟨-, r', hrun'⟩
    rw [Reader.run_of_append hrun] at hrun'
    obtain ⟨next, hnext, -⟩ := Reader.run_cons_eq_some.mp hrun'
    exact ⟨next, hnext⟩
  · rintro ⟨next, hnext⟩
    refine ⟨hequal, next, ?_⟩
    rw [Reader.run_of_append hrun, Reader.run_cons hnext]
    rfl

/-- The tokens that were taken are a formula where the reader may end. -/
theorem exists_derivation_iff (hequal : equal.terminal = .mark .equal)
    (hrun : Reader.start.run ts = some r) :
    (∃ d : Derivation .start, d.tokens = equal :: ts) ↔ ∃ draft, r.Ends draft := by
  constructor
  · rintro ⟨d, htokens⟩
    by_contra hends
    exact ne_tokens_of_not_ends hrun (not_exists.mp hends) d htokens
  · rintro ⟨draft, hends⟩
    have hreached : Reached .start [] := .operand .nil
    obtain ⟨body, hbody, -⟩ := (hreached.run hrun).exists_derivation hends
    exact ⟨.start equal body hequal, congrArg (equal :: ·) hbody⟩

end

/-- What a syntax error names as expected, where the text before the fault was split into tokens and
blanks. Some formula goes on behind those tokens with one of a class that is named, exactly if the
parentheses that are open behind them, and the colon before the last of them, allow that class. If the
end is named, the tokens are a formula exactly if no parenthesis is open. -/
theorem expected_of_parse {s : String} {e : ParseError} (h : parse s = .error e)
    (hsyntactic : e.isSyntactic) :
    ∃ before rest ts, Text.trim s.toList = before ++ rest ∧ Scanned 1 before ts rest ∧
      (e = .noEqualSign ∧ ts = [] ∨ Begins ts ∧ Halts ts rest e) ∧
      (∀ token : Token, token.terminal.description ∈ e.expected →
        (Begins (ts ++ [token]) ↔ Admits ts token.terminal)) ∧
      (Expected.finish.description ∈ e.expected →
        ((∃ d : Derivation .start, d.tokens = ts) ↔ openAfter ts = [])) := by
  rcases exists_stuck_of_parse h hsyntactic with rfl | ⟨before, rest, equal, ts, r, htrim, hscanned,
    hequal, hrun, hstuck⟩
  · refine ⟨[], _, [], rfl, .nil, .inl ⟨rfl, rfl⟩, fun token htoken => ?_, fun hfinish => ?_⟩
    · have hterminal : Expected.terminal token.terminal = .terminal (.mark .equal) :=
        List.mem_singleton.mp (terminal_mem_expected.mp htoken)
      cases token
      cases hterminal
      exact ⟨fun _ => trivial, fun _ => begins_cons.mpr ⟨rfl, .start, rfl⟩⟩
    · cases List.mem_singleton.mp (description_mem_expected.mp hfinish)
  have hreached : Reached .start [] := .operand .nil
  have hreached' := hreached.run hrun
  have hstands : r.Stands (equal :: ts) := (Reader.Stands.start hequal).run hrun
  refine ⟨before, rest, equal :: ts, htrim, hscanned,
    .inr ⟨begins_cons.mpr ⟨hequal, r, hrun⟩, hstuck.halts hrun⟩, fun token htoken => ?_,
    fun hfinish => ?_⟩
  · rw [begins_concat hequal hrun]
    exact hstands.accepts_iff hreached'
      (hstuck.offers.terminal _ (terminal_mem_expected.mp htoken))
  · rw [exists_derivation_iff hequal hrun]
    rcases hstuck.offers.finish (description_mem_expected.mp hfinish) with hdraft | ⟨hfocus, hframes⟩
    · obtain ⟨last, hlast⟩ := Option.isSome_iff_exists.mp hdraft
      exact hstands.ends_iff hlast
    · cases hreached' with
      | afterCall _ _ _ => exact absurd rfl (hframes _ _ _)
      | _ => cases hfocus

/-- Behind `=1` a closing parenthesis and a comma are named, though no formula begins with `=1)` or
`=1,`. -/
theorem expected_of_parse_surplus : ∃ e, parse "=1 2" = .error e ∧ e.isSyntactic ∧
    (∀ mark ∈ [Mark.close, .comma], (Terminal.mark mark).description ∈ e.expected ∧
      ¬Begins [⟨.mark .equal, ['='], 1⟩, ⟨.number, ['1'], 2⟩, ⟨.mark mark, mark.spelling.toList, 4⟩]) ∧
    ∃ before rest ts, Text.trim "=1 2".toList = before ++ rest ∧ Scanned 1 before ts rest ∧
      (e = .noEqualSign ∧ ts = [] ∨ Begins ts ∧ Halts ts rest e) ∧
      (∀ token : Token, token.terminal.description ∈ e.expected →
        (Begins (ts ++ [token]) ↔ Admits ts token.terminal)) ∧
      (Expected.finish.description ∈ e.expected →
        ((∃ d : Derivation .start, d.tokens = ts) ↔ openAfter ts = [])) := by
  obtain ⟨e, hparse, htest⟩ := exists_error_of_test (x := parse "=1 2") (p := fun e => e.isSyntactic &&
    [Mark.close, .comma].all fun mark => Expected.terminal (.mark mark) ∈ e.expectations)
    (by decide +kernel)
  rw [Bool.and_eq_true, List.all_eq_true] at htest
  refine ⟨e, hparse, htest.1, fun mark hmark => ⟨?_, ?_⟩, expected_of_parse hparse htest.1⟩
  · exact terminal_mem_expected.mpr (of_decide_eq_true (htest.2 mark hmark))
  · rw [begins_cons]
    rintro ⟨-, r, hrun⟩
    rcases List.mem_pair.mp hmark with rfl | rfl <;> contradiction

end Spreadsheet.Formula
