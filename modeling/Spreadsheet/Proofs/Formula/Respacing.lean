import Spreadsheet.Proofs.Formula.Columns
import Spreadsheet.Proofs.Formula.Neighbours
import Spreadsheet.Proofs.Formula.Separation

/-! Blanks between tokens. Where the blanks of a formula are changed, its tokens are found again as they
were, but for the name of a call that spells a reference or a truth value: with a blank in front of the
parenthesis it is taken for that. -/
namespace Spreadsheet.Formula

/-! ## Tokens and what follows them -/

/-- A token that is found again where nothing follows. -/
def Token.Alone (token : Token) : Prop :=
  Terminal.Lexes Terminal.all token.terminal token.chars []

/-- Words are followed by separators, and names by parentheses. -/
theorem Terminal.followers_of_word : ∀ t ∈ Terminal.words, t ≠ .name →
    t.followers = Focus.operandFollowers ++ [.mark .colon] := by
  decide

namespace Token.Lexed

variable {token : Token} {rest : List Char}

/-- A mark that may follow an operand ends the word before it. -/
theorem closes (h : token.Lexed)
    (hterminal : token.terminal ∈ Focus.operandFollowers ++ [.mark .colon]) (rest : List Char) :
    Terminal.Closes (token.chars ++ rest) := by
  obtain ⟨m, hm⟩ := Reached.exists_mark hterminal
  rw [hm] at hterminal
  rw [h.mark hm]
  cases m <;> first | exact Terminal.closes_cons.mpr (by decide) | exact absurd hterminal (by decide)

/-- A token does not start as a mark that its terminal cannot be mistaken for. -/
theorem head_ne_of_opensLike (h : token.Lexed) {m : Mark} {c : Char}
    (hmark : ∀ cs, Terminal.extent (.mark m) (c :: cs) ≠ 0)
    (hopens : Terminal.opensLike (.mark m) token.terminal = false) (rest : List Char) :
    (token.chars ++ rest).head? ≠ some c := by
  obtain ⟨after, hlexes⟩ := h
  obtain ⟨first, tail, hchars, -⟩ := hlexes.exists_cons
  have hne := Terminal.extent_of_first? hlexes.first
  rw [hchars, List.cons_append] at hne ⊢
  rintro ⟨rfl⟩
  exact hne (Terminal.extent_eq_zero (hmark _) hopens)

/-- What starts an operand makes no comparison longer. -/
theorem head_ne (h : token.Lexed)
    (hterminal : token.terminal ∈ Focus.operandStarts ++ [.mark .close]) (rest : List Char) :
    (token.chars ++ rest).head? ≠ some '=' ∧ (token.chars ++ rest).head? ≠ some '>' := by
  have hequal : ∀ t ∈ Focus.operandStarts ++ [.mark .close],
      Terminal.opensLike (.mark .equal) t = false := by decide
  have hgreater : ∀ t ∈ Focus.operandStarts ++ [.mark .close],
      Terminal.opensLike (.mark .greater) t = false := by decide
  constructor
  · exact h.head_ne_of_opensLike (m := .equal) (c := '=') (fun _ => Nat.one_ne_zero)
      (hequal _ hterminal) rest
  · exact h.head_ne_of_opensLike (m := .greater) (c := '>') (fun _ => Nat.one_ne_zero)
      (hgreater _ hterminal) rest

theorem alone_mark (h : token.Lexed) {m : Mark} (hm : token.terminal = .mark m) : token.Alone := by
  unfold Token.Alone
  rw [hm, h.mark hm]
  exact Terminal.lexes_mark m fun _ => ⟨by simp, by simp⟩

end Token.Lexed

namespace Scanned

variable {column : Nat} {before rest : List Char} {ts : List Token} {last : Token}

/-- Before a text that starts with a mark that may follow an operand, or with a blank, words end. -/
theorem closes (h : Scanned column before ts [])
    (hts : ∀ token ∈ ts.head?, token.terminal ∈ Focus.operandFollowers ++ [.mark .colon]) :
    Terminal.Closes before := by
  cases h with
  | nil => exact Terminal.closes_nil
  | blank hspacing _ => exact Terminal.closes_cons.mpr (Terminal.mem_separators_of_isSpacing hspacing)
  | token hlexes _ => exact Token.Lexed.closes ⟨_, hlexes⟩ (hts _ rfl) _

/-- What is not the name of a call is found again for itself. -/
theorem alone (h : Scanned column before ts []) (hchain : ts.IsChain Neighbours) :
    ∀ token ∈ ts, token.terminal ≠ .name → token.Alone := by
  generalize hrest : [] = rest at h
  induction h with
  | nil => simp
  | blank _ _ ih => exact ih hchain hrest
  | @token column t cs before rest ts hlexes hscanned ih =>
    cases hrest
    obtain ⟨hhead, hchain⟩ := List.isChain_cons.mp hchain
    refine List.forall_mem_cons.mpr ⟨fun hname => ?_, ih hchain rfl⟩
    rcases Terminal.mem_words_or_mark t with hword | ⟨m, rfl⟩
    · have hcloses : Terminal.Closes before := by
        refine hscanned.closes fun next hnext => ?_
        rw [← Terminal.followers_of_word t hword hname]
        exact hhead next hnext
      rw [List.append_nil] at hlexes
      exact hlexes.congr_of_closes hword hcloses Terminal.closes_nil
    · exact Token.Lexed.alone_mark ⟨_, hlexes⟩ rfl

theorem isSpacing_of_nil (h : Scanned column before [] rest) : ∀ c ∈ before, isSpacing c := by
  generalize hts : [] = ts at h
  induction h with
  | nil => simp
  | blank hspacing _ ih => exact List.forall_mem_cons.mpr ⟨hspacing, ih hts⟩
  | token _ _ _ => contradiction

/-- A text ends with its last token and blanks. -/
theorem exists_blanks (h : Scanned column before (ts ++ [last]) rest) :
    ∃ front blanks, before = front ++ (last.chars ++ blanks) ∧ ∀ c ∈ blanks, isSpacing c := by
  generalize htokens : ts ++ [last] = tokens at h
  induction h generalizing ts with
  | nil => simp at htokens
  | @blank _ c _ _ _ _ _ ih =>
    obtain ⟨front, blanks, rfl, hblanks⟩ := ih htokens
    exact ⟨c :: front, blanks, rfl, hblanks⟩
  | @token column t cs before rest tokens _ hscanned ih =>
    cases ts with
    | nil =>
      cases htokens
      exact ⟨[], before, rfl, hscanned.isSpacing_of_nil⟩
    | cons first ts =>
      obtain ⟨front, blanks, rfl, hblanks⟩ := ih (List.cons.inj htokens).2
      exact ⟨cs ++ front, blanks, by rw [List.append_assoc], hblanks⟩

/-- The last token of a text without blanks at its end does not end with a blank either. -/
theorem stops_last (h : Scanned column before (ts ++ [last]) rest)
    (hstops : Text.Stops Text.isBlank before.reverse) : Text.Stops Text.isBlank last.chars.reverse := by
  obtain ⟨front, blanks, rfl, hblanks⟩ := h.exists_blanks
  rw [List.reverse_append, List.reverse_append] at hstops
  cases hreverse : blanks.reverse with
  | nil =>
    intro c hc
    apply hstops c
    rw [hreverse, List.nil_append, List.head?_append, hc]
    rfl
  | cons c rest =>
    have hmem : c ∈ blanks := List.mem_reverse.mp (hreverse ▸ List.mem_cons_self)
    have hblank := isBlank_of_isSpacing (hblanks c hmem)
    have hstop := hstops c (by rw [hreverse]; rfl)
    rw [hblank] at hstop
    contradiction

theorem blanks {gap : List Char} (hgap : ∀ c ∈ gap, isSpacing c)
    (h : Scanned (columnAfter column gap) before ts rest) : Scanned column (gap ++ before) ts rest := by
  induction gap generalizing column with
  | nil => exact h
  | cons c gap ih =>
    obtain ⟨hc, hgap⟩ := List.forall_mem_cons.mp hgap
    exact .blank hc (ih hgap h)

end Scanned

/-! ## Pieces of a text -/

/-- A token and the blanks behind it. -/
structure Piece where
  token : Token
  gap : List Char
  isSpacing_gap : ∀ c ∈ gap, isSpacing c

namespace Piece

def chars (p : Piece) : List Char := p.token.chars ++ p.gap

/-- Blanks stand only behind tokens that are read alike for themselves. -/
def Keeps (p : Piece) : Prop :=
  p.gap = [] ∨ Terminal.first? Terminal.all p.token.chars = some p.token.terminal

instance (p : Piece) : Decidable p.Keeps := inferInstanceAs (Decidable (_ ∨ _))

/-- As which token the one of a piece is found again. -/
structure Reads (p : Piece) (token : Token) : Prop where
  chars : token.chars = p.token.chars
  of_closed : p.gap = [] → token.terminal = p.token.terminal
  of_apart : p.gap ≠ [] → Terminal.first? Terminal.all p.token.chars = some token.terminal

variable {p : Piece} {token q : Token}

theorem Reads.content_eq (h : p.Reads token) (hkeeps : p.Keeps) : token.content = p.token.content := by
  have hterminal : token.terminal = p.token.terminal := by
    by_cases hgap : p.gap = []
    · exact h.of_closed hgap
    · have hfirst := hkeeps.resolve_left hgap
      rw [h.of_apart hgap] at hfirst
      exact Option.some.inj hfirst
  exact Prod.ext hterminal h.chars

theorem keeps_of_alone (h : p.token.Alone) : p.Keeps := by
  have hfirst := h.first
  rw [List.append_nil] at hfirst
  exact .inr hfirst

theorem exists_spacing (h : p.gap ≠ []) : ∃ c gap, p.gap = c :: gap ∧ isSpacing c := by
  obtain ⟨c, gap, hgap⟩ := List.exists_cons_of_ne_nil h
  exact ⟨c, gap, hgap, p.isSpacing_gap c (hgap ▸ List.mem_cons_self)⟩

theorem closes_gap (h : p.gap ≠ []) (rest : List Char) : Terminal.Closes (p.gap ++ rest) := by
  obtain ⟨c, gap, hgap, hspacing⟩ := exists_spacing h
  rw [hgap]
  exact Terminal.closes_cons.mpr (Terminal.mem_separators_of_isSpacing hspacing)

/-- The name of a call is found again, or taken for a reference or a truth value. -/
theorem exists_lexes_name (hlexed : p.token.Lexed) (hname : p.token.terminal = .name)
    (hq : q.Lexed) (hnext : Neighbours p.token q) (rest : List Char) :
    ∃ t, Terminal.Lexes Terminal.all t p.token.chars (p.gap ++ (q.chars ++ rest)) ∧
      ∀ column, p.Reads ⟨t, p.token.chars, column⟩ := by
  have hisName := hlexed.sound.name hname
  by_cases hgap : p.gap = []
  · unfold Neighbours at hnext
    rw [hname] at hnext
    rw [hgap, hq.mark (List.mem_singleton.mp hnext)]
    have hlexes : Terminal.Lexes (Focus.operand false).candidates .name p.token.chars ('(' :: rest) :=
      Terminal.lexes_name hisName rest
    exact ⟨.name, ⟨Terminal.first?_all hlexes.first, hlexes.extent, hlexes.not_spacing⟩, fun _ =>
      ⟨rfl, fun _ => hname.symm, fun hne => absurd hgap hne⟩⟩
  · obtain ⟨t, ht, hlexes⟩ := Terminal.exists_lexes_of_isName hisName
    have hfirst := hlexes.first
    rw [List.append_nil] at hfirst
    have hword := Terminal.lettered_words t ht
    exact ⟨t, hlexes.congr_of_closes hword Terminal.closes_nil (closes_gap hgap _), fun _ =>
      ⟨rfl, fun hnil => absurd hnil hgap, fun _ => hfirst⟩⟩

/-- Any other token is found again. -/
theorem lexes_of_alone (hlexed : p.token.Lexed) (halone : p.token.Alone)
    (hname : p.token.terminal ≠ .name) (hq : q.Lexed) (hnext : Neighbours p.token q)
    (rest : List Char) :
    Terminal.Lexes Terminal.all p.token.terminal p.token.chars (p.gap ++ (q.chars ++ rest)) := by
  rcases Terminal.mem_words_or_mark p.token.terminal with hword | ⟨m, hm⟩
  · have hcloses : Terminal.Closes (p.gap ++ (q.chars ++ rest)) := by
      by_cases hgap : p.gap = []
      · unfold Neighbours at hnext
        rw [Terminal.followers_of_word _ hword hname] at hnext
        rw [hgap]
        exact hq.closes hnext rest
      · exact closes_gap hgap _
    exact halone.congr_of_closes hword Terminal.closes_nil hcloses
  · rw [hm, hlexed.mark hm]
    refine Terminal.lexes_mark m fun hcomparison => ?_
    by_cases hgap : p.gap = []
    · have hfollowers : p.token.terminal.followers = Focus.operandStarts ++ [.mark .close] := by
        rw [hm]
        rcases hcomparison with rfl | rfl <;> rfl
      unfold Neighbours at hnext
      rw [hfollowers] at hnext
      rw [hgap]
      exact hq.head_ne hnext rest
    · obtain ⟨c, gap, hgap, hspacing⟩ := exists_spacing hgap
      rw [hgap]
      constructor <;>
        · rintro ⟨rfl⟩
          exact absurd hspacing (by decide)

theorem exists_lexes (hlexed : p.token.Lexed) (halone : p.token.terminal ≠ .name → p.token.Alone)
    (hq : q.Lexed) (hnext : Neighbours p.token q) (rest : List Char) :
    ∃ t, Terminal.Lexes Terminal.all t p.token.chars (p.gap ++ (q.chars ++ rest)) ∧
      ∀ column, p.Reads ⟨t, p.token.chars, column⟩ := by
  by_cases hname : p.token.terminal = .name
  · exact exists_lexes_name hlexed hname hq hnext rest
  · have hlexes := lexes_of_alone hlexed (halone hname) hname hq hnext rest
    have hfirst := (halone hname).first
    rw [List.append_nil] at hfirst
    exact ⟨_, hlexes, fun _ => ⟨rfl, fun _ => rfl, fun _ => hfirst⟩⟩

end Piece

/-! ## Texts -/

/-- The text of the pieces, and of the last token, which nothing follows. -/
def respaced (pieces : List Piece) (last : Token) : List Char :=
  pieces.flatMap Piece.chars ++ last.chars

theorem exists_respaced (pieces : List Piece) (last : Token) : ∃ token ts rest,
    pieces.map Piece.token ++ [last] = token :: ts ∧ respaced pieces last = token.chars ++ rest := by
  cases pieces with
  | nil => exact ⟨last, [], [], rfl, by simp [respaced]⟩
  | cons p pieces =>
    exact ⟨p.token, _, p.gap ++ respaced pieces last, rfl, by simp [respaced, Piece.chars]⟩

/-- Tokens that follow each other as those of a formula do, and were taken off a text. -/
structure Taken (ts : List Token) : Prop where
  chain : ts.IsChain Neighbours
  lexed : ∀ token ∈ ts, token.Lexed
  alone : ∀ token ∈ ts, token.terminal ≠ .name → token.Alone

namespace Taken

variable {token next : Token} {ts : List Token}

theorem tail (h : Taken (token :: ts)) : Taken ts :=
  ⟨(List.isChain_cons.mp h.chain).2, (List.forall_mem_cons.mp h.lexed).2,
    (List.forall_mem_cons.mp h.alone).2⟩

theorem neighbours (h : Taken (token :: next :: ts)) : Neighbours token next :=
  (List.isChain_cons.mp h.chain).1 next rfl

/-- The name of a call is followed by its parenthesis. -/
theorem open_of_name (h : Taken (token :: next :: ts)) (hname : token.terminal = .name) :
    next.terminal = .mark .open := by
  have hnext := h.neighbours
  unfold Neighbours at hnext
  rw [hname] at hnext
  exact List.mem_singleton.mp hnext

end Taken

/-- The tokens of a text are found again with other blanks between them, but for names that are taken for
something else. -/
theorem exists_scanned {pieces : List Piece} {last : Token}
    (h : Taken (pieces.map Piece.token ++ [last])) (hlast : last.terminal ≠ .name) (column : Nat) :
    ∃ ts final, Scanned column (respaced pieces last) (ts ++ [final]) [] ∧
      List.Forall₂ Piece.Reads pieces ts ∧ final.content = last.content := by
  induction pieces generalizing column with
  | nil =>
    have hscanned : Scanned column (last.chars ++ []) [⟨last.terminal, last.chars, column⟩] [] :=
      .token (h.alone last (List.mem_singleton_self _) hlast) .nil
    rw [List.append_nil] at hscanned
    exact ⟨[], _, hscanned, .nil, rfl⟩
  | cons p pieces ih =>
    obtain ⟨q, us, rest, htokens, htext⟩ := exists_respaced pieces last
    obtain ⟨ts, final, hscanned, hreads, hfinal⟩ :=
      ih h.tail (columnAfter (columnAfter column p.token.chars) p.gap)
    rw [List.map_cons, List.cons_append, htokens] at h
    obtain ⟨hlexed, hrest⟩ := List.forall_mem_cons.mp h.lexed
    obtain ⟨t, hlexes, hp⟩ := p.exists_lexes hlexed (h.alone _ List.mem_cons_self)
      (hrest q List.mem_cons_self) h.neighbours rest
    rw [← htext] at hlexes
    refine ⟨⟨t, p.token.chars, column⟩ :: ts, final, ?_, .cons (hp column) hreads, hfinal⟩
    have htoken : Scanned column (p.token.chars ++ (p.gap ++ respaced pieces last)) _ [] :=
      .token (by rwa [List.append_nil]) (hscanned.blanks p.isSpacing_gap)
    unfold respaced at htoken ⊢
    rwa [List.flatMap_cons, Piece.chars, List.append_assoc, List.append_assoc]

/-- What a name is taken for is followed by no parenthesis, unless it is a name. -/
theorem Piece.Reads.keeps_of_open {p : Piece} {token : Token} (h : p.Reads token)
    (hname : p.token.terminal = .name) (hlexed : p.token.Lexed)
    (hopen : .mark .open ∈ token.terminal.followers) : p.Keeps := by
  by_cases hgap : p.gap = []
  · exact .inl hgap
  have hother : ∀ t ∈ Terminal.lettered, .mark .open ∈ t.followers → t = .name := by decide
  obtain ⟨t, ht, hlexes⟩ := Terminal.exists_lexes_of_isName (hlexed.sound.name hname)
  have hfirst := hlexes.first
  rw [List.append_nil, h.of_apart hgap] at hfirst
  cases hfirst
  right
  rw [h.of_apart hgap, hother _ ht hopen, hname]

/-- Where the tokens that are found again follow each other as in a formula, they are as they were. -/
theorem keeps_of_isChain {pieces : List Piece} {last final : Token} {ts : List Token}
    (hreads : List.Forall₂ Piece.Reads pieces ts) (hfinal : final.content = last.content)
    (h : Taken (pieces.map Piece.token ++ [last])) (hchain : (ts ++ [final]).IsChain Neighbours) :
    ∀ p ∈ pieces, p.Keeps := by
  induction hreads with
  | nil => simp
  | @cons p token pieces ts hp hreads ih =>
    obtain ⟨hnext, hchain⟩ := List.isChain_cons.mp hchain
    refine List.forall_mem_cons.mpr ⟨?_, ih h.tail hchain⟩
    by_cases hname : p.token.terminal = .name
    · have hopen : .mark .open ∈ token.terminal.followers := by
        cases hreads with
        | nil =>
          rw [← h.open_of_name hname, ← Token.terminal_eq hfinal]
          exact hnext final rfl
        | @cons q token' _ _ hq _ =>
          have hterminal := h.open_of_name hname
          have halone := h.alone q.token (by simp) (by rw [hterminal]; decide)
          rw [← hterminal, ← Token.terminal_eq (hq.content_eq (Piece.keeps_of_alone halone))]
          exact hnext token' rfl
      exact hp.keeps_of_open hname (h.lexed _ List.mem_cons_self) hopen
    · exact Piece.keeps_of_alone (h.alone _ List.mem_cons_self hname)

theorem map_content_of_keeps {pieces : List Piece} {ts : List Token}
    (hreads : List.Forall₂ Piece.Reads pieces ts) (hkeeps : ∀ p ∈ pieces, p.Keeps) :
    ts.map Token.content = (pieces.map Piece.token).map Token.content := by
  induction hreads with
  | nil => rfl
  | cons hp _ ih =>
    obtain ⟨hkeep, hkeeps⟩ := List.forall_mem_cons.mp hkeeps
    simp only [List.map_cons]
    rw [hp.content_eq hkeep, ih hkeeps]

/-- There is nothing to trim where the last token has no blank at its end and the first one is an equal
sign. -/
theorem trim_respaced {d : Derivation .start} {pieces : List Piece} {last : Token}
    (heq : d.tokens = pieces.map Piece.token ++ [last])
    (hlexed : ∀ token ∈ pieces.map Piece.token ++ [last], token.Lexed)
    (hstops : Text.Stops Text.isBlank last.chars.reverse) :
    Text.trim (respaced pieces last) = respaced pieces last := by
  refine Text.trim_eq_self ?_ ?_
  · obtain ⟨first, us, rest, htokens, htext⟩ := exists_respaced pieces last
    obtain ⟨equal, ts, r, hd, hequal, -⟩ := d.reads
    rw [heq, htokens] at hd
    obtain ⟨rfl, -⟩ := List.cons.inj hd
    rw [htext, (hlexed first (htokens ▸ List.mem_cons_self)).mark hequal]
    exact Text.stops_cons.mpr (by decide)
  · obtain ⟨rest, hlexes⟩ := hlexed last (by simp)
    obtain ⟨c, tail, hchars, -⟩ := hlexes.exists_cons
    unfold respaced
    intro d hd
    rw [List.reverse_append, List.head?_append] at hd
    apply hstops d
    cases hlast : last.chars.reverse.head? with
    | none => simp [hchars] at hlast
    | some e =>
      rw [hlast] at hd
      exact hd

/-- A formula with other blanks between its tokens, or none, is the same formula, unless a blank stands
behind a token that is another one where it is read for itself: then the text has a syntax error. Such
tokens are only names of calls that spell a reference or a truth value. -/
theorem parse_respaced {s : String} {f : Formula} (h : parse s = .ok f) {pieces : List Piece}
    {last : Token} (htokens : tokens? s = some (pieces.map Piece.token ++ [last])) :
    ((∀ p ∈ pieces, p.Keeps) → parse (String.ofList (respaced pieces last)) = .ok f) ∧
    ((∃ p ∈ pieces, ¬p.Keeps) →
      ∃ e, parse (String.ofList (respaced pieces last)) = .error e ∧ e.isSyntactic) ∧
    ∀ p ∈ pieces, p.token.terminal ≠ .name → p.Keeps := by
  obtain ⟨d, hd, hheight, hvalue⟩ := exists_derivation_of_parse h
  have heq : d.tokens = pieces.map Piece.token ++ [last] := by
    rw [htokens] at hd
    exact (Option.some.inj hd).symm
  have hscanned := tokensFrom_eq_some.mp htokens
  have hchain : (pieces.map Piece.token ++ [last]).IsChain Neighbours := heq ▸ d.isChain_tokens
  have htaken : Taken (pieces.map Piece.token ++ [last]) :=
    ⟨hchain, hscanned.lexes, hscanned.alone hchain⟩
  obtain ⟨ts, final, hrespaced, hreads, hfinal⟩ := exists_scanned htaken (d.last_ne_name heq) 1
  have hstops := hscanned.stops_last (Text.stops_reverse_trim s.toList)
  have hnew : tokens? (String.ofList (respaced pieces last)) = some (ts ++ [final]) := by
    unfold tokens?
    rw [String.toList_ofList, trim_respaced heq htaken.lexed hstops]
    exact tokensFrom_eq_some.mpr hrespaced
  refine ⟨fun hkeeps => ?_, fun hloses => ?_, fun p hp hname => ?_⟩
  · have hcontent : (ts ++ [final]).map Token.content = d.tokens.map Token.content := by
      rw [heq, List.map_append, List.map_append, map_content_of_keeps hreads hkeeps, List.map_singleton,
        List.map_singleton, hfinal]
    obtain ⟨d', htokens', hheight', hvalue'⟩ := d.exists_of_content hcontent
    rw [← htokens'] at hnew
    rw [parse_of_tokens? hnew, d'.resolveAt_draft (by omega)]
    exact hvalue' f hvalue
  · obtain ⟨p, hp, hlost⟩ := hloses
    refine Grammatical.not_iff.mp fun hgrammatical => hlost ?_
    obtain ⟨d', hd'⟩ := grammatical_parse_iff.mp hgrammatical
    rw [hnew] at hd'
    exact keeps_of_isChain hreads hfinal htaken (Option.some.inj hd' ▸ d'.isChain_tokens) p hp
  · have hmem : p.token ∈ pieces.map Piece.token ++ [last] :=
      List.mem_append_left _ (List.mem_map_of_mem hp)
    exact Piece.keeps_of_alone (htaken.alone _ hmem hname)

/-- The tokens of `=LOG10(1)` but for the last one, with blanks behind three of them. -/
def logarithm (behindEqual behindName behindNumber : List Char)
    (h : ∀ c ∈ behindEqual ++ behindName ++ behindNumber, isSpacing c) : List Piece :=
  [⟨⟨.mark .equal, ['='], 1⟩, behindEqual, fun c hc => h c (by simp [hc])⟩,
    ⟨⟨.name, ['L', 'O', 'G', '1', '0'], 2⟩, behindName, fun c hc => h c (by simp [hc])⟩,
    ⟨⟨.mark .open, ['('], 7⟩, [], by simp⟩,
    ⟨⟨.number, ['1'], 8⟩, behindNumber, fun c hc => h c (by simp [hc])⟩]

/-- Blanks and a line feed leave `=LOG10(1)` as it is, but not in front of its opening parenthesis. -/
theorem parse_respaced_logarithm :
    parse "=LOG10(1)" = .ok (.call "LOG10" [.constant (.number (.int 1))]) ∧
    parse "= LOG10(1\n)" = .ok (.call "LOG10" [.constant (.number (.int 1))]) ∧
    ∃ e, parse "=LOG10 (1)" = .error e ∧ e.isSyntactic := by
  have hparse : (parse "=LOG10(1)").toOption = some (.call "LOG10" [.constant (.number (.int 1))]) := by
    decide +kernel
  have htokens : tokens? "=LOG10(1)" = some
      ((logarithm [' '] [] ['\n'] (by decide)).map Piece.token ++ [⟨.mark .close, [')'], 9⟩]) := by
    decide +kernel
  have htokens' : tokens? "=LOG10(1)" = some
      ((logarithm [] [' '] [] (by decide)).map Piece.token ++ [⟨.mark .close, [')'], 9⟩]) := by
    decide +kernel
  have hkeeps : ∀ p ∈ logarithm [' '] [] ['\n'] (by decide), p.Keeps := by decide +kernel
  have hloses : ∃ p ∈ logarithm [] [' '] [] (by decide), ¬p.Keeps := by decide +kernel
  have hok := eq_ok_of_toOption hparse
  exact ⟨hok, (parse_respaced hok htokens).1 hkeeps, (parse_respaced hok htokens').2.1 hloses⟩

end Spreadsheet.Formula
