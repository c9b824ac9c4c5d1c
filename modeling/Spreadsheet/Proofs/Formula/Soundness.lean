import Spreadsheet.Proofs.Formula.Completeness

/-! What is read can be derived. The pending operators and open parentheses are what a derivation has to
the left of the phrase that is due, and each token that the reader takes either extends them or completes
a phrase in them. -/
namespace Spreadsheet.Formula

/-! ## Phrases -/

theorem Layer.eq_of_level {l k : Layer} (h : l.level = k.level) : l = k := by
  cases l <;> cases k <;> first | rfl | contradiction

theorem Layer.level_le (l : Layer) : l.level ≤ 8 := by
  cases l <;> decide

/-- Tokens with this draft that may stand where a phrase of this level is due. -/
def Phrase (level : Nat) (ts : List Token) (draft : Draft) : Prop :=
  ∃ (l : Layer) (d : Derivation (.layer l)), level ≤ l.level ∧ d.tokens = ts ∧ d.draft = draft

namespace Phrase

variable {level : Nat} {ts us : List Token} {draft : Draft} {l : Layer}

theorem of_derivation (d : Derivation (.layer l)) : Phrase l.level d.tokens d.draft :=
  ⟨l, d, Nat.le_refl _, rfl, rfl⟩

theorem mono {k : Nat} (h : Phrase level ts draft) (hle : k ≤ level) : Phrase k ts draft := by
  obtain ⟨l, d, hl, htokens, hdraft⟩ := h
  exact ⟨l, d, Nat.le_trans hle hl, htokens, hdraft⟩

/-- A phrase of a tighter layer is one of this layer, through those between. -/
theorem exists_derivation (h : Phrase l.level ts draft) :
    ∃ d : Derivation (.layer l), d.tokens = ts ∧ d.draft = draft := by
  obtain ⟨k, d, hle, htokens, hdraft⟩ := h
  obtain ⟨n, hn⟩ := Nat.exists_eq_add_of_le hle
  induction n generalizing l with
  | zero =>
    cases Layer.eq_of_level hn
    exact ⟨d, htokens, hdraft⟩
  | succ n ih =>
    have hl : l ≠ .operand := by
      rintro rfl
      exact absurd k.level_le (by rw [hn]; simp [Layer.level])
    obtain ⟨inner, hinner, hdraft⟩ := ih (l := l.next) (by rw [Layer.level_next hl]; omega)
      (by rw [Layer.level_next hl]; omega)
    exact ⟨.pass inner hl, hinner, hdraft⟩

end Phrase

/-! ## What is pending -/

/-- The arguments of a call that were read, the last one first and each with its comma, can be gone on
with. -/
def Awaits (past : List Token) (drafts : List Draft) : Prop :=
  ∀ (first : Derivation (.layer .expression)) (rest : Derivation .further),
    ∃ args : Derivation .arguments, args.tokens = past ++ (first.tokens ++ rest.tokens) ∧
      args.draft = drafts.reverse ++ first.draft :: rest.draft

theorem awaits_nil : Awaits [] [] := fun first rest => ⟨.arguments first rest, rfl, rfl⟩

theorem Awaits.comma {past : List Token} {drafts : List Draft} (h : Awaits past drafts) {comma : Token}
    (hcomma : comma.terminal = .mark .comma) (d : Derivation (.layer .expression)) :
    Awaits (past ++ (d.tokens ++ [comma])) (d.draft :: drafts) := by
  intro first rest
  obtain ⟨args, htokens, hdrafts⟩ := h d (.further comma first rest hcomma)
  refine ⟨args, ?_, ?_⟩
  · rw [htokens]
    simp [Derivation.tokens]
  · rw [hdrafts, List.reverse_cons, List.append_assoc]
    rfl

/-- What was read up to where a phrase of this level is due. -/
inductive Pending : List Frame → List Token → Nat → Prop where
  | nil : Pending [] [] 0
  | group {frames : List Frame} {past : List Token} {level : Nat} {opening : Token} :
    Pending frames past level → opening.terminal = .mark .open →
      Pending (.group :: frames) (past ++ [opening]) 0
  | call {frames : List Frame} {past : List Token} {level : Nat} {name opening : Token}
    {read : List Token} {drafts : List Draft} : Pending frames past level → name.terminal = .name →
      opening.terminal = .mark .open → Awaits read drafts →
        Pending (.call name drafts :: frames) (past ++ name :: opening :: read) 0
  | unary {frames : List Frame} {past : List Token} {level : Nat} {op : UnaryOp} {token : Token} :
    Pending frames past level → token.terminal.sign? = some op →
      Pending (.unary op :: frames) (past ++ [token]) 5
  | binary {frames : List Frame} {past : List Token} {level : Nat} {op : BinaryOp} {token : Token}
    {l : Layer} : Pending frames past level → (left : Derivation (.layer l)) →
      l.operator? token.terminal = some op → level ≤ l.level →
        Pending (.binary left.draft op :: frames) (past ++ (left.tokens ++ [token])) (l.level + 1)
  | power {frames : List Frame} {past : List Token} {level : Nat} {caret : Token} :
    Pending frames past level → (left : Derivation (.layer .percentage)) →
      caret.terminal = .mark .caret →
        Pending (.binary left.draft .power :: frames) (past ++ (left.tokens ++ [caret])) 5

namespace Pending

variable {frames : List Frame} {past ts : List Token} {level m : Nat} {draft : Draft}

theorem level_le (h : Pending frames past level) : level ≤ 5 := by
  cases h with
  | nil | group _ _ | call _ _ _ _ => exact Nat.zero_le _
  | unary _ _ | power _ _ _ => exact Nat.le_refl _
  | binary _ _ hop _ => exact Nat.succ_le_succ (Layer.level_of_operator? hop).2.2.2.2

/-- Completing the operators that bind at least as tightly as `m` leaves a phrase of that level, and what
is pending before it asks for no tighter one. -/
theorem exists_reduce (h : Pending frames past level) (hphrase : Phrase (max level m) ts draft)
    (hm : m ≤ 4) : ∃ past' ts' level', Pending (reduce m frames draft).1 past' level' ∧
      Phrase m ts' (reduce m frames draft).2 ∧ past' ++ ts' = past ++ ts ∧ level' ≤ m := by
  induction h generalizing ts draft with
  | nil => exact ⟨[], ts, 0, .nil, hphrase.mono (Nat.le_max_right _ _), rfl, Nat.zero_le _⟩
  | group h hopening =>
    exact ⟨_, ts, 0, .group h hopening, hphrase.mono (Nat.le_max_right _ _), rfl, Nat.zero_le _⟩
  | call h hname hopening hread =>
    exact ⟨_, ts, 0, .call h hname hopening hread, hphrase.mono (Nat.le_max_right _ _), rfl,
      Nat.zero_le _⟩
  | @unary frames past level op token h hsign ih =>
    obtain ⟨inner, rfl, rfl⟩ := (hphrase.mono (Nat.le_max_left 5 m)).exists_derivation (l := .sign)
    have hle : max level m ≤ Layer.sign.level := Nat.max_le.mpr ⟨h.level_le, Nat.le_succ_of_le hm⟩
    obtain ⟨past', ts', level', hpending, hphrase', heq, hlevel⟩ :=
      ih ((Phrase.of_derivation (.sign op token inner hsign)).mono hle)
    refine ⟨past', ts', level', hpending, hphrase', ?_, hlevel⟩
    rw [heq, List.append_assoc]
    rfl
  | @power frames past level caret h left hcaret ih =>
    obtain ⟨right, rfl, rfl⟩ := (hphrase.mono (Nat.le_max_left 5 m)).exists_derivation (l := .sign)
    have hle : max level m ≤ Layer.power.level :=
      Nat.max_le.mpr ⟨Nat.le_succ_of_le h.level_le, Nat.le_trans hm (by decide)⟩
    obtain ⟨past', ts', level', hpending, hphrase', heq, hlevel⟩ :=
      ih ((Phrase.of_derivation (.power left caret right hcaret)).mono hle)
    rw [reduce, if_pos (Nat.le_trans hm (by decide))]
    refine ⟨past', ts', level', hpending, hphrase', ?_, hlevel⟩
    rw [heq]
    simp [Derivation.tokens]
  | @binary frames past level op token l h left hop hleft ih =>
    obtain ⟨-, hprecedence, hl, -, -⟩ := Layer.level_of_operator? hop
    rw [reduce, hprecedence]
    split
    · rename_i htight
      have hright := hphrase.mono (Nat.le_max_left (l.level + 1) m)
      rw [← Layer.level_next hl] at hright
      obtain ⟨right, rfl, rfl⟩ := hright.exists_derivation
      obtain ⟨past', ts', level', hpending, hphrase', heq, hlevel⟩ :=
        ih ((Phrase.of_derivation (.binary left op token right hop)).mono
          (Nat.max_le.mpr ⟨hleft, htight⟩))
      refine ⟨past', ts', level', hpending, hphrase', ?_, hlevel⟩
      rw [heq]
      simp [Derivation.tokens]
    · rename_i hloose
      exact ⟨_, ts, l.level + 1, .binary h left hop hleft, hphrase.mono (Nat.le_max_right _ _), rfl,
        Nat.lt_of_not_le hloose⟩

/-- A closing parenthesis, or a comma, completes the phrase inside the innermost open one. -/
theorem exists_body (h : Pending frames past level) (hphrase : Phrase 7 ts draft) :
    ∃ (past' : List Token) (level' : Nat) (body : Derivation (.layer .expression)),
      Pending (reduce 0 frames draft).1 past' level' ∧ (reduce 0 frames draft).2 = body.draft ∧
        past' ++ body.tokens = past ++ ts := by
  have hle : max level 0 ≤ 7 := Nat.max_le.mpr ⟨Nat.le_trans h.level_le (by decide), Nat.zero_le _⟩
  obtain ⟨past', ts', level', hpending, hphrase', heq, -⟩ :=
    h.exists_reduce (hphrase.mono hle) (Nat.zero_le _)
  obtain ⟨body, rfl, hbody⟩ := hphrase'.exists_derivation (l := .expression)
  exact ⟨past', level', body, hpending, hbody.symm, heq⟩

end Pending

/-! ## Readers -/

/-- A reader that has taken these tokens. -/
inductive Reached : Reader → List Token → Prop where
  | operand {frames : List Frame} {past : List Token} {level : Nat} : Pending frames past level →
    Reached ⟨frames, .operand false⟩ past
  | afterCall {frames : List Frame} {past : List Token} {level : Nat} {name opening : Token} :
    Pending frames past level → name.terminal = .name → opening.terminal = .mark .open →
      Reached ⟨.call name [] :: frames, .operand true⟩ (past ++ [name, opening])
  | name {frames : List Frame} {past : List Token} {level : Nat} {name : Token} :
    Pending frames past level → name.terminal = .name → Reached ⟨frames, .name name⟩ (past ++ [name])
  | reference {frames : List Frame} {past : List Token} {level : Nat} {token : Token} :
    Pending frames past level → token.terminal ∈ Terminal.references →
      Reached ⟨frames, .reference token⟩ (past ++ [token])
  | corner {frames : List Frame} {past : List Token} {level : Nat} {first colon : Token} :
    Pending frames past level → first.terminal ∈ Terminal.references →
      colon.terminal = .mark .colon → Reached ⟨frames, .corner first⟩ (past ++ [first, colon])
  | range {frames : List Frame} {past ts : List Token} {level : Nat} {draft : Draft} :
    Pending frames past level → Phrase 7 ts draft → Reached ⟨frames, .range draft⟩ (past ++ ts)
  | complete {frames : List Frame} {past ts : List Token} {level : Nat} {draft : Draft} :
    Pending frames past level → Phrase 7 ts draft → Reached ⟨frames, .complete draft⟩ (past ++ ts)

namespace Reached

variable {r r' : Reader} {frames : List Frame} {past ts : List Token} {level : Nat} {token : Token}
  {draft last : Draft}

/-- What was read is a phrase after what is pending. -/
theorem exists_phrase (h : Reached r past) (hlast : r.focus.draft? = some last) :
    ∃ past' ts level, Pending r.frames past' level ∧ Phrase 7 ts last ∧ past = past' ++ ts := by
  cases h with
  | operand _ | afterCall _ _ _ | name _ _ | corner _ _ _ => contradiction
  | @reference frames past level token h htoken =>
    cases hlast
    have hphrase := Phrase.of_derivation (.single (.address token htoken))
    exact ⟨past, [token], level, h, hphrase.mono (by decide), rfl⟩
  | @range frames past ts level draft h hphrase =>
    cases hlast
    exact ⟨past, ts, level, h, hphrase, rfl⟩
  | @complete frames past ts level draft h hphrase =>
    cases hlast
    exact ⟨past, ts, level, h, hphrase, rfl⟩

theorem operandStarts_cases : ∀ t ∈ Focus.operandStarts, t ∈ Terminal.references ∨
    t ∈ Terminal.literals ∨ t.sign?.isSome ∨ t = .name ∨ t = .mark .open := by
  decide

/-- A token where an operand is due. -/
theorem takeOperand (h : Pending frames past level) (htoken : token.terminal ∈ Focus.operandStarts) :
    Reached (Reader.takeOperand frames token) (past ++ [token]) := by
  rcases operandStarts_cases _ htoken with hreference | hliteral | hsign | hname | hopen
  · rw [Reader.takeOperand_reference hreference]
    exact .reference h hreference
  · rw [Reader.takeOperand_literal hliteral]
    exact .complete h ((Phrase.of_derivation (.literal token hliteral)).mono (by decide))
  · obtain ⟨op, hsign⟩ := Option.isSome_iff_exists.mp hsign
    rw [Reader.takeOperand_sign hsign]
    exact .operand (.unary h hsign)
  · rw [Reader.takeOperand_name hname]
    exact .name h hname
  · rw [Reader.takeOperand_open hopen]
    exact .operand (.group h hopen)

theorem close (h : Pending frames past level) (hphrase : Phrase 7 ts draft)
    (hclose : token.terminal = .mark .close)
    (htake : Reader.takeMark frames draft token .close = .ok r') :
    Reached r' (past ++ ts ++ [token]) := by
  obtain ⟨past', level', body, hpending, hbody, heq⟩ := h.exists_body hphrase
  rw [← heq]
  unfold Reader.takeMark at htake
  dsimp only at htake
  split at htake
  · rename_i frames' draft' hreduce
    rw [hreduce] at hpending hbody
    cases htake
    obtain rfl : draft' = body.draft := hbody
    cases hpending with
    | @group _ past _ opening h hopening =>
      have hphrase := Phrase.of_derivation (.group opening body token hopening hclose)
      have hreached := Reached.complete h (hphrase.mono (k := 7) (by decide))
      simpa [Derivation.tokens, Derivation.draft] using hreached
  · rename_i name drafts frames' draft' hreduce
    rw [hreduce] at hpending hbody
    cases htake
    obtain rfl : draft' = body.draft := hbody
    cases hpending with
    | @call _ past _ _ opening read _ h hname hopening hread =>
      obtain ⟨args, htokens, hdrafts⟩ := hread body .noFurther
      have hphrase := Phrase.of_derivation (.call name opening args token hname hopening hclose)
      have hreached := Reached.complete h (hphrase.mono (k := 7) (by decide))
      simpa [Derivation.tokens, Derivation.draft, htokens, hdrafts] using hreached
  · contradiction

theorem comma (h : Pending frames past level) (hphrase : Phrase 7 ts draft)
    (hcomma : token.terminal = .mark .comma)
    (htake : Reader.takeMark frames draft token .comma = .ok r') :
    Reached r' (past ++ ts ++ [token]) := by
  obtain ⟨past', level', body, hpending, hbody, heq⟩ := h.exists_body hphrase
  rw [← heq]
  unfold Reader.takeMark at htake
  dsimp only at htake
  split at htake
  · rename_i name drafts frames' draft' hreduce
    rw [hreduce] at hpending hbody
    cases htake
    obtain rfl : draft' = body.draft := hbody
    cases hpending with
    | @call _ past _ _ opening read _ h hname hopening hread =>
      have hreached := Reached.operand (.call h hname hopening (hread.comma hcomma body))
      simpa using hreached
  · contradiction

theorem exists_operator? {mark : Mark} {op : BinaryOp} (h : binaryOp? mark = some op)
    (hop : op ≠ .power) : ∃ l : Layer, l.operator? (.mark mark) = some op := by
  cases mark <;> cases h
  case equal | notEqual | less | greater | lessEqual | greaterEqual => exact ⟨.comparison, rfl⟩
  case ampersand => exact ⟨.concatenation, rfl⟩
  case plus | minus => exact ⟨.addition, rfl⟩
  case star | slash => exact ⟨.multiplication, rfl⟩
  case caret => exact absurd rfl hop

theorem operator {mark : Mark} {op : BinaryOp} (h : Pending frames past level)
    (hphrase : Phrase 7 ts draft) (hmark : token.terminal = .mark mark)
    (hbinary : binaryOp? mark = some op) (hop : op ≠ .power) :
    Reached ⟨.binary (reduce op.precedence frames draft).2 op :: (reduce op.precedence frames draft).1,
      .operand false⟩ (past ++ ts ++ [token]) := by
  obtain ⟨l, hl⟩ := exists_operator? hbinary hop
  rw [← hmark] at hl
  obtain ⟨-, hprecedence, -, -, hlow⟩ := Layer.level_of_operator? hl
  rw [hprecedence]
  have hle : max level l.level ≤ 7 :=
    Nat.max_le.mpr ⟨Nat.le_trans h.level_le (by decide), Nat.le_trans hlow (by decide)⟩
  obtain ⟨past', ts', level', hpending, hphrase', heq, hlevel⟩ :=
    h.exists_reduce (hphrase.mono hle) hlow
  obtain ⟨left, rfl, hleft⟩ := hphrase'.exists_derivation
  have hreached := Reached.operand (.binary hpending left hl hlevel)
  rwa [hleft, ← List.append_assoc, heq] at hreached

/-- A mark after a phrase. -/
theorem takeMark {mark : Mark} (h : Pending frames past level) (hphrase : Phrase 7 ts draft)
    (hmark : token.terminal = .mark mark)
    (htake : Reader.takeMark frames draft token mark = .ok r') : Reached r' (past ++ ts ++ [token]) := by
  cases mark
  case percent =>
    cases htake
    obtain ⟨inner, rfl, rfl⟩ := hphrase.exists_derivation (l := .percentage)
    rw [List.append_assoc]
    exact .complete h (Phrase.of_derivation (.percent inner token hmark))
  case caret =>
    cases htake
    obtain ⟨left, rfl, rfl⟩ := hphrase.exists_derivation (l := .percentage)
    rw [List.append_assoc]
    exact .operand (.power h left hmark)
  case close => exact close h hphrase hmark htake
  case comma => exact comma h hphrase hmark htake
  case colon | «open» => contradiction
  all_goals
    cases htake
    exact operator h hphrase hmark rfl (by decide)

theorem exists_mark {t : Terminal} (h : t ∈ Focus.operandFollowers ++ [.mark .colon]) :
    ∃ mark, t = .mark mark := by
  cases t with
  | mark mark => exact ⟨mark, rfl⟩
  | _ => exact absurd h (by decide)

/-- Right after the parenthesis of a call its closing one may stand. -/
theorem takeAfterCall {name opening : Token} (h : Pending frames past level)
    (hname : name.terminal = .name) (hopening : opening.terminal = .mark .open)
    (hmem : token.terminal ∈ Focus.operandStarts ++ [.mark .close])
    (htake : Reader.take ⟨.call name [] :: frames, .operand true⟩ token = .ok r') :
    Reached r' (past ++ [name, opening] ++ [token]) := by
  by_cases hclose : token.terminal = .mark .close
  · have hphrase := Phrase.of_derivation (.call name opening .noArguments token hname hopening hclose)
    have hreached := Reached.complete h (hphrase.mono (k := 7) (by decide))
    obtain ⟨terminal, cs, column⟩ := token
    cases hclose
    cases htake
    simpa [Derivation.tokens, Derivation.draft] using hreached
  · rw [take_operand hclose] at htake
    cases htake
    have hstart := (List.mem_append.mp hmem).resolve_right fun h => hclose (List.mem_singleton.mp h)
    exact takeOperand (.call h hname hopening awaits_nil) hstart

/-- After a reference a colon may stand too. -/
theorem takeAfterReference {first : Token} {mark : Mark} (h : Pending frames past level)
    (hfirst : first.terminal ∈ Terminal.references) (hmark : token.terminal = .mark mark)
    (htake : Reader.take ⟨frames, .reference first⟩ token = .ok r') :
    Reached r' (past ++ [first] ++ [token]) := by
  obtain ⟨terminal, cs, column⟩ := token
  cases hmark
  by_cases hcolon : mark = .colon
  · cases hcolon
    cases htake
    rw [List.append_assoc]
    exact .corner h hfirst rfl
  · rw [Reader.take_mark rfl hcolon] at htake
    have hphrase := Phrase.of_derivation (.single (.address first hfirst))
    exact takeMark h (hphrase.mono (by decide)) rfl htake

/-- Each token that the reader takes leads on to a reader that has taken it too. -/
theorem accept (h : Reached r past) (haccept : r.accept? token = some r') :
    Reached r' (past ++ [token]) := by
  obtain ⟨hmem, htake⟩ := Reader.accept?_eq_some.mp haccept
  cases h with
  | operand h =>
    cases htake
    exact takeOperand h hmem
  | afterCall h hname hopening => exact takeAfterCall h hname hopening hmem htake
  | name h hname =>
    cases htake
    rw [List.append_assoc]
    exact .afterCall h hname (List.mem_singleton.mp hmem)
  | @corner frames past level first colon h hfirst hcolon =>
    have htoken : token.terminal ∈ Terminal.references :=
      List.mem_pair.mpr (List.mem_pair.mp hmem).symm
    have hphrase := Phrase.of_derivation
      (.range (.address first hfirst) colon (.address token htoken) hcolon)
    cases htake
    rw [List.append_assoc]
    exact .range h (hphrase.mono (by decide))
  | reference h hfirst =>
    obtain ⟨mark, hmark⟩ := exists_mark hmem
    exact takeAfterReference h hfirst hmark htake
  | range h hphrase =>
    obtain ⟨mark, hmark⟩ := exists_mark hmem
    obtain ⟨terminal, cs, column⟩ := token
    cases hmark
    exact takeMark h hphrase rfl htake
  | complete h hphrase =>
    obtain ⟨mark, hmark⟩ := exists_mark (List.mem_append_left _ hmem)
    obtain ⟨terminal, cs, column⟩ := token
    cases hmark
    exact takeMark h hphrase rfl htake

theorem run (h : Reached r past) (hrun : r.run ts = some r') : Reached r' (past ++ ts) := by
  induction ts generalizing r past with
  | nil =>
    cases hrun
    rwa [List.append_nil]
  | cons token ts ih =>
    obtain ⟨next, haccept, hrest⟩ := Reader.run_cons_eq_some.mp hrun
    have hnext := ih (h.accept haccept) hrest
    rwa [List.append_assoc] at hnext

/-- Where a formula may end, all of it is an expression. -/
theorem exists_derivation (h : Reached r past) (hends : r.Ends draft) :
    ∃ d : Derivation (.layer .expression), d.tokens = past ∧ d.draft = draft := by
  obtain ⟨last, hlast, hreduce⟩ := hends
  obtain ⟨before, ts, level, hpending, hphrase, rfl⟩ := h.exists_phrase hlast
  obtain ⟨past', level', body, hpending', hbody, heq⟩ := hpending.exists_body hphrase
  rw [hreduce] at hpending' hbody
  cases hpending'
  exact ⟨body, heq, hbody.symm⟩

end Reached

/-! ## Texts -/

/-- The texts with a draft are those whose tokens can be derived, and the draft is that of the
derivation. -/
theorem draft?_eq_ok_iff {s : String} {draft : Draft} : draft? s = .ok draft ↔
    ∃ d : Derivation .start, tokens? s = some d.tokens ∧ d.draft = draft := by
  rw [draft?_eq_ok]
  constructor
  · rintro ⟨equal, ts, r, htokens, hequal, hrun, hends⟩
    have hreached : Reached .start [] := .operand .nil
    obtain ⟨body, hbody, rfl⟩ := (hreached.run hrun).exists_derivation hends
    refine ⟨.start equal body hequal, ?_, rfl⟩
    rw [htokens, Derivation.tokens, hbody]
    rfl
  · rintro ⟨d, htokens, rfl⟩
    obtain ⟨equal, ts, r, heq, hequal, hrun, hends⟩ := d.reads
    exact ⟨equal, ts, r, htokens.trans (congrArg some heq), hequal, hrun, hends⟩

theorem grammatical_parse_iff {s : String} :
    Grammatical (parse s) ↔ ∃ d : Derivation .start, tokens? s = some d.tokens := by
  rw [grammatical_parse]
  constructor
  · rintro ⟨draft, hdraft⟩
    obtain ⟨d, htokens, -⟩ := draft?_eq_ok_iff.mp hdraft
    exact ⟨d, htokens⟩
  · rintro ⟨d, htokens⟩
    exact ⟨d.draft, draft?_eq_ok_iff.mpr ⟨d, htokens, rfl⟩⟩

theorem parse_of_tokens? {s : String} {d : Derivation .start} (h : tokens? s = some d.tokens) :
    parse s = Symbol.start.resolveAt 0 d.draft := by
  unfold parse
  rw [draft?_eq_ok_iff.mpr ⟨d, h, rfl⟩]
  rfl

/-- A tree that was read is what a derivation of the tokens denotes. -/
theorem exists_derivation_of_parse {s : String} {f : Formula} (h : parse s = .ok f) :
    ∃ d : Derivation .start, tokens? s = some d.tokens ∧ d.height < Draft.maxHeight ∧
      d.value = .ok f := by
  obtain ⟨draft, hdraft, -⟩ := bind_eq_ok.mp h
  obtain ⟨d, htokens, -⟩ := draft?_eq_ok_iff.mp hdraft
  rw [parse_of_tokens? htokens] at h
  have hheight : d.height < Draft.maxHeight := by
    by_contra hhigh
    obtain ⟨e, he⟩ := d.refused_draft (by decide : 0 < Draft.maxHeight) (by omega)
    rw [he] at h
    contradiction
  refine ⟨d, htokens, hheight, ?_⟩
  rw [← h]
  exact (d.resolveAt_draft (by omega)).symm

/-- A text is free of syntax errors exactly if its tokens can be derived in the grammar. There is no more
than one derivation, and if its tree has no more levels than a formula may have, the text is read as what
the derivation denotes: as a tree, unless a number, a reference or a code is out of range. -/
theorem parse_eq_value (s : String) :
    (Grammatical (parse s) ↔ ∃ d : Derivation .start, tokens? s = some d.tokens) ∧
    (∀ d d' : Derivation .start, d.tokens = d'.tokens → d = d') ∧
    ∀ d : Derivation .start, tokens? s = some d.tokens →
      (d.height < Draft.maxHeight → parse s = d.value ∧
        ((∀ token ∈ d.tokens, token.Readable) → ∃ f, parse s = .ok f)) ∧
      (Draft.maxHeight ≤ d.height → ∃ e, parse s = .error e) := by
  refine ⟨grammatical_parse_iff, fun d d' => Derivation.tokens_injective, fun d htokens => ?_⟩
  have hresolve := parse_of_tokens? htokens
  constructor
  · intro hheight
    have hvalue : parse s = d.value := by
      rw [hresolve]
      exact d.resolveAt_draft (by omega)
    refine ⟨hvalue, fun hreadable => ?_⟩
    rw [hvalue]
    exact d.succeeds_value hreadable
  · intro hheight
    rw [hresolve]
    exact d.refused_draft (by decide) (by omega)

/-- The derivation of `=-2^-A1%`: the sign in front stands before a whole power, and the one after the
caret before its right operand. -/
def signedPower : Derivation .start :=
  .start ⟨.mark .equal, ['='], 1⟩
    (.pass (.pass (.pass (.pass (.pass
      (.sign .minus ⟨.mark .minus, ['-'], 2⟩
        (.pass
          (.power (.pass (.literal ⟨.number, ['2'], 3⟩ (by decide)) (by decide))
            ⟨.mark .caret, ['^'], 4⟩
            (.sign .minus ⟨.mark .minus, ['-'], 5⟩
              (.pass (.pass
                (.percent
                  (.pass (.single (.address ⟨.cell, ['A', '1'], 6⟩ (by decide))) (by decide))
                  ⟨.mark .percent, ['%'], 8⟩ rfl)
                (by decide)) (by decide))
              rfl)
            rfl)
          (by decide))
        rfl)
      (by decide)) (by decide)) (by decide)) (by decide)) (by decide))
    rfl

theorem parse_signedPower :
    tokens? "=-2^-A1%" = some signedPower.tokens ∧ signedPower.height < Draft.maxHeight ∧
      (∀ token ∈ signedPower.tokens, token.Readable) ∧
      parse "=-2^-A1%" = .ok (.unary .minus (.binary .power (.constant (.number (.int 2)))
        (.unary .minus (.unary .percent (.cell ⟨0, 0⟩))))) := by
  have htokens : tokens? "=-2^-A1%" = some signedPower.tokens := by decide +kernel
  have hheight : signedPower.height < Draft.maxHeight := by decide
  have hreadable : ∀ token ∈ signedPower.tokens, token.Readable := by decide +kernel
  have hvalue : signedPower.value.toOption = some (.unary .minus (.binary .power
      (.constant (.number (.int 2))) (.unary .minus (.unary .percent (.cell ⟨0, 0⟩))))) := by
    decide +kernel
  have hparse := ((parse_eq_value "=-2^-A1%").2.2 signedPower htokens).1 hheight
  exact ⟨htokens, hheight, hreadable, hparse.1.trans (eq_ok_of_toOption hvalue)⟩

end Spreadsheet.Formula
