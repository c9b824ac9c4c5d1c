import Spreadsheet.Proofs.Formula.Drafting
import Spreadsheet.Proofs.Formula.RoundTrip

/-! What can be derived is read. The reader goes through the tokens of a phrase from left to right, and
leaves the pending operators as they were but for those that the phrase itself leaves open at its right
end. -/
namespace Spreadsheet.Formula

/-- A phrase of this level was read from `frames` on. Operators of no more than the level find what they
would find after its draft alone, and from the percent sign on the phrase is complete. -/
def Reader.Completes (r : Reader) (frames : List Frame) (draft : Draft) (level : Nat) : Prop :=
  ∃ last, r.focus.draft? = some last ∧
    (∀ k ≤ 4, k ≤ level → reduce k r.frames last = reduce k frames draft) ∧
    (7 ≤ level → r.frames = frames ∧ last = draft)

/-- How the reader goes through the tokens of a phrase. -/
def Symbol.Reads : (s : Symbol) → List Token → s.Denotation Draft Token → Prop
  | .start, ts, draft => ∃ equal rest r, ts = equal :: rest ∧ equal.terminal = .mark .equal ∧
      Reader.start.run rest = some r ∧ r.Ends draft
  | .layer l, ts, draft => ∀ frames flag, Open l.level frames →
      ∃ r, Reader.run ⟨frames, .operand flag⟩ ts = some r ∧ r.Completes frames draft l.level
  | .reference, ts, token => ts = [token] ∧ token.terminal ∈ Terminal.references
  | .arguments, ts, drafts => ∀ frames name closing, closing.terminal = .mark .close →
      Reader.run ⟨.call name [] :: frames, .operand true⟩ (ts ++ [closing]) =
        some ⟨frames, .complete (.call name drafts)⟩
  | .further, ts, drafts => ∀ (r : Reader) last frames name before draft closing,
      r.focus.draft? = some last → reduce 0 r.frames last = (.call name before :: frames, draft) →
      closing.terminal = .mark .close →
        r.run (ts ++ [closing]) =
          some ⟨frames, .complete (.call name (before.reverse ++ draft :: drafts))⟩

namespace Reader

variable {r r' : Reader} {frames : List Frame} {flag : Bool} {token : Token} {ts us : List Token}
  {draft last : Draft} {level : Nat}

theorem completes_of_draft? {focus : Focus} (h : focus.draft? = some draft) :
    Completes ⟨frames, focus⟩ frames draft level :=
  ⟨draft, h, fun _ _ _ => rfl, fun _ => ⟨rfl, rfl⟩⟩

theorem Completes.mono {k : Nat} (h : r.Completes frames draft level) (hle : k ≤ level) :
    r.Completes frames draft k := by
  obtain ⟨last, hlast, hreduce, htight⟩ := h
  exact ⟨last, hlast, fun j hlow hj => hreduce j hlow (by omega), fun hk => htight (by omega)⟩

theorem run_cons (h : r.accept? token = some r') : r.run (token :: ts) = r'.run ts := by
  unfold run
  rw [List.foldlM_cons, h]
  rfl

theorem run_of_append (h : r.run ts = some r') : r.run (ts ++ us) = r'.run us := by
  rw [run_append, h]
  rfl

theorem takeOperand_literal (h : token.terminal ∈ Terminal.literals) :
    takeOperand frames token = ⟨frames, .complete (.leaf token)⟩ := by
  unfold takeOperand
  simp only [Terminal.literals, List.mem_cons, List.not_mem_nil, or_false] at h
  rcases h with h | h | h | h <;> rw [h]

theorem takeOperand_reference (h : token.terminal ∈ Terminal.references) :
    takeOperand frames token = ⟨frames, .reference token⟩ := by
  unfold takeOperand
  rcases List.mem_pair.mp h with h | h <;> rw [h]

theorem takeOperand_sign {op : UnaryOp} (h : token.terminal.sign? = some op) :
    takeOperand frames token = ⟨.unary op :: frames, .operand false⟩ := by
  unfold takeOperand
  cases hterminal : token.terminal with
  | mark mark =>
    rw [hterminal] at h
    cases mark <;> cases h <;> rfl
  | _ =>
    rw [hterminal] at h
    cases h

theorem takeOperand_open (h : token.terminal = .mark .open) :
    takeOperand frames token = ⟨.group :: frames, .operand false⟩ := by
  unfold takeOperand
  rw [h]

theorem takeOperand_name (h : token.terminal = .name) :
    takeOperand frames token = ⟨frames, .name token⟩ := by
  unfold takeOperand
  rw [h]

/-- A token that starts an operand is taken where one is due. -/
theorem accept?_operand (h : token.terminal ∈ Focus.operandStarts) :
    accept? ⟨frames, .operand flag⟩ token = some (takeOperand frames token) := by
  have hclose : token.terminal ≠ .mark .close := by
    intro hclose
    rw [hclose] at h
    exact absurd h (by decide)
  refine accept?_eq_some.mpr ⟨?_, take_operand hclose⟩
  cases flag with
  | false => exact h
  | true => exact List.mem_append_left _ h

theorem mem_candidates_of_draft? (h : r.focus.draft? = some last) {t : Terminal}
    (ht : t ∈ Focus.operandFollowers) : t ∈ r.focus.candidates := by
  obtain ⟨frames, focus⟩ := r
  cases focus with
  | operand _ | name _ | corner _ => contradiction
  | reference _ | range _ => exact List.mem_append_left _ ht
  | complete _ => exact ht

/-- A mark is taken after an operand. -/
theorem accept?_mark (hlast : r.focus.draft? = some last) {mark : Mark}
    (hmark : token.terminal = .mark mark) (hmem : Terminal.mark mark ∈ Focus.operandFollowers)
    (htake : takeMark r.frames last token mark = .ok r') : r.accept? token = some r' := by
  have hcolon : mark ≠ .colon := by
    rintro rfl
    exact absurd hmem (by decide)
  obtain ⟨terminal, cs, column⟩ := token
  cases hmark
  exact accept?_eq_some.mpr
    ⟨mem_candidates_of_draft? hlast hmem, (take_mark hlast hcolon cs column).trans htake⟩

end Reader

/-! ## Operators -/

namespace Symbol.Reads

open Reader

variable {l : Layer} {token : Token} {ts us : List Token} {draft left right : Draft}

theorem next (h : (Symbol.layer l.next).Reads ts draft) (hl : l ≠ .operand) :
    (Symbol.layer l).Reads ts draft := by
  have hle : l.level ≤ l.next.level := by
    rw [Layer.level_next hl]
    exact Nat.le_succ _
  intro frames flag hopen
  obtain ⟨r, hrun, hr⟩ := h frames flag (hopen.mono hle)
  exact ⟨r, hrun, hr.mono hle⟩

theorem binaryOp?_of_operator? {op : BinaryOp} {t : Terminal} (h : l.operator? t = some op) :
    ∃ mark, t = .mark mark ∧ Terminal.mark mark ∈ Focus.operandFollowers ∧
      binaryOp? mark = some op ∧ op ≠ .power := by
  unfold Layer.operator? at h
  split at h <;> cases h <;> exact ⟨_, rfl, by decide, rfl, by decide⟩

/-- The operators that group to the left: what is pending before them binds less tightly, so that it
stays, and what is pending after them does not. -/
theorem binary {op : BinaryOp} (hop : l.operator? token.terminal = some op)
    (hleft : (Symbol.layer l).Reads ts left) (hright : (Symbol.layer l.next).Reads us right) :
    (Symbol.layer l).Reads (ts ++ token :: us) (Draft.binary op left right) := by
  obtain ⟨-, hprecedence, hl, -, hlow⟩ := Layer.level_of_operator? hop
  obtain ⟨mark, hmark, hmem, hbinary, hpower⟩ := binaryOp?_of_operator? hop
  intro frames flag hopen
  obtain ⟨r, hrun, last, hlast, hreduce, -⟩ := hleft frames flag hopen
  have htake : takeMark r.frames last token mark = .ok ⟨.binary left op :: frames, .operand false⟩ := by
    rw [takeMark_binary _ _ _ hbinary hpower, hprecedence, hreduce _ hlow (Nat.le_refl _),
      hopen.reduce hlow]
  have hpending : Open l.next.level (.binary left op :: frames) := by
    intro _ frame hframe
    cases hframe
    rw [Layer.level_next hl, ← hprecedence]
    exact Nat.lt_succ_self _
  obtain ⟨r', hrun', last', hlast', hreduce', -⟩ := hright _ false hpending
  refine ⟨r', ?_, last', hlast', fun k hk hle => ?_, fun h => by omega⟩
  · rw [run_of_append hrun, run_cons (accept?_mark hlast hmark hmem htake), hrun']
  · rw [hreduce' k hk (by rw [Layer.level_next hl]; omega), Formula.reduce,
      if_pos (hprecedence ▸ hle)]

theorem power (hcaret : token.terminal = .mark .caret)
    (hleft : (Symbol.layer .percentage).Reads ts left) (hright : (Symbol.layer .sign).Reads us right) :
    (Symbol.layer .power).Reads (ts ++ token :: us) (Draft.binary .power left right) := by
  intro frames flag _
  obtain ⟨r, hrun, last, hlast, -, htight⟩ := hleft frames flag (open_tight (by decide) _)
  obtain ⟨hframes, rfl⟩ := htight (Nat.le_refl _)
  obtain ⟨r', hrun', last', hlast', hreduce', -⟩ :=
    hright (.binary last .power :: frames) false (open_tight (by decide) _)
  refine ⟨r', ?_, last', hlast', fun k hk _ => ?_, fun h => absurd h (by decide)⟩
  · rw [run_of_append hrun, run_cons (accept?_mark hlast hcaret (by decide) rfl), hframes, hrun']
  · have hle : k ≤ BinaryOp.power.precedence := Nat.le_trans hk (by decide)
    rw [hreduce' k hk (Nat.le_trans hk (by decide)), Formula.reduce, if_pos hle]

theorem sign {op : UnaryOp} (hsign : token.terminal.sign? = some op)
    (h : (Symbol.layer .sign).Reads ts draft) :
    (Symbol.layer .sign).Reads (token :: ts) (Draft.unary op draft) := by
  intro frames flag _
  obtain ⟨r, hrun, last, hlast, hreduce, -⟩ :=
    h (.unary op :: frames) false (open_tight (by decide) _)
  refine ⟨r, ?_, last, hlast, hreduce, fun h => absurd h (by decide)⟩
  rw [run_cons (accept?_operand (Terminal.sign?_start hsign)), takeOperand_sign hsign, hrun]

theorem percent (hpercent : token.terminal = .mark .percent)
    (h : (Symbol.layer .percentage).Reads ts draft) :
    (Symbol.layer .percentage).Reads (ts ++ [token]) (Draft.unary .percent draft) := by
  intro frames flag _
  obtain ⟨r, hrun, last, hlast, -, htight⟩ := h frames flag (open_tight (by decide) _)
  obtain ⟨hframes, rfl⟩ := htight (Nat.le_refl _)
  refine ⟨⟨frames, .complete (.unary .percent last)⟩, ?_, completes_of_draft? rfl⟩
  rw [run_of_append hrun, run_cons (accept?_mark hlast hpercent (by decide) rfl), hframes]
  rfl

/-! ## Operands -/

theorem literal (h : token.terminal ∈ Terminal.literals) :
    (Symbol.layer .operand).Reads [token] (Draft.leaf token) := by
  intro frames flag _
  refine ⟨⟨frames, .complete (.leaf token)⟩, ?_, completes_of_draft? rfl⟩
  rw [run_cons (accept?_operand (Terminal.literals_start _ h).1), takeOperand_literal h]
  rfl

theorem reference_iff : Symbol.reference.Reads ts token ↔
    ts = [token] ∧ token.terminal ∈ Terminal.references := Iff.rfl

theorem single (h : Symbol.reference.Reads ts token) :
    (Symbol.layer .operand).Reads ts (Draft.leaf token) := by
  obtain ⟨rfl, htoken⟩ := reference_iff.mp h
  intro frames flag _
  refine ⟨⟨frames, .reference token⟩, ?_, completes_of_draft? rfl⟩
  rw [run_cons (accept?_operand (Terminal.references_start _ htoken).1), takeOperand_reference htoken]
  rfl

theorem range {colon first last : Token} (hcolon : colon.terminal = .mark .colon)
    (hfirst : Symbol.reference.Reads ts first) (hlast : Symbol.reference.Reads us last) :
    (Symbol.layer .operand).Reads (ts ++ colon :: us) (Draft.range first last) := by
  obtain ⟨rfl, hstart⟩ := reference_iff.mp hfirst
  obtain ⟨rfl, hend⟩ := reference_iff.mp hlast
  intro frames flag _
  refine ⟨⟨frames, .range (.range first last)⟩, ?_, completes_of_draft? rfl⟩
  have hcorner : accept? ⟨frames, .reference first⟩ colon = some ⟨frames, .corner first⟩ := by
    obtain ⟨terminal, cs, column⟩ := colon
    cases hcolon
    rfl
  have hrange : accept? ⟨frames, .corner first⟩ last = some ⟨frames, .range (.range first last)⟩ :=
    accept?_eq_some.mpr ⟨List.mem_pair.mpr (List.mem_pair.mp hend).symm, rfl⟩
  rw [List.singleton_append, run_cons (accept?_operand (Terminal.references_start _ hstart).1),
    takeOperand_reference hstart, run_cons hcorner, run_cons hrange]
  rfl

theorem group {opening closing : Token} (hopening : opening.terminal = .mark .open)
    (hclosing : closing.terminal = .mark .close) (h : (Symbol.layer .expression).Reads ts draft) :
    (Symbol.layer .operand).Reads (opening :: (ts ++ [closing])) draft := by
  intro frames flag _
  refine ⟨⟨frames, .complete draft⟩, ?_, completes_of_draft? rfl⟩
  have hpending : Open Layer.expression.level (.group :: frames) := fun _ frame hframe => by
    cases hframe
    trivial
  obtain ⟨r, hrun, last, hlast, hreduce, -⟩ := h (.group :: frames) false hpending
  have hgroup : Formula.reduce 0 r.frames last = (.group :: frames, draft) :=
    hreduce 0 (Nat.zero_le _) (Nat.zero_le _)
  have htake : takeMark r.frames last closing .close = .ok ⟨frames, .complete draft⟩ := by
    unfold takeMark
    dsimp only
    rw [hgroup]
  rw [run_cons (accept?_operand (by rw [hopening]; decide)), takeOperand_open hopening,
    run_of_append hrun,
    run_cons (accept?_mark hlast hclosing (by decide) htake)]
  rfl

/-! ## Calls -/

theorem call {name opening closing : Token} {drafts : List Draft} (hname : name.terminal = .name)
    (hopening : opening.terminal = .mark .open) (hclosing : closing.terminal = .mark .close)
    (h : Symbol.arguments.Reads ts drafts) :
    (Symbol.layer .operand).Reads (name :: opening :: (ts ++ [closing])) (Draft.call name drafts) := by
  intro frames flag _
  refine ⟨⟨frames, .complete (.call name drafts)⟩, ?_, completes_of_draft? rfl⟩
  have hcall : accept? ⟨frames, .name name⟩ opening = some ⟨.call name [] :: frames, .operand true⟩ :=
    accept?_eq_some.mpr ⟨List.mem_singleton.mpr hopening, rfl⟩
  rw [run_cons (accept?_operand (by rw [hname]; decide)), takeOperand_name hname, run_cons hcall,
    h frames name closing hclosing]

theorem noArguments : Symbol.arguments.Reads [] [] := by
  intro frames name closing hclosing
  have htake : accept? ⟨.call name [] :: frames, .operand true⟩ closing =
      some ⟨frames, .complete (.call name [])⟩ := by
    obtain ⟨terminal, cs, column⟩ := closing
    cases hclosing
    rfl
  rw [List.nil_append, run_cons htake]
  rfl

/-- An argument, read up to where the comma or the closing parenthesis follows. -/
theorem argument (h : (Symbol.layer .expression).Reads ts draft) (flag : Bool) (name : Token)
    (before : List Draft) (frames : List Frame) :
    ∃ r last, Reader.run ⟨.call name before :: frames, .operand flag⟩ ts = some r ∧
      r.focus.draft? = some last ∧ reduce 0 r.frames last = (.call name before :: frames, draft) := by
  obtain ⟨r, hrun, last, hlast, hreduce, -⟩ := h _ flag (open_call _ name before frames)
  exact ⟨r, last, hrun, hlast, hreduce 0 (Nat.zero_le _) (Nat.zero_le _)⟩

theorem arguments {drafts : List Draft} (hfirst : (Symbol.layer .expression).Reads ts draft)
    (hrest : Symbol.further.Reads us drafts) : Symbol.arguments.Reads (ts ++ us) (draft :: drafts) := by
  intro frames name closing hclosing
  obtain ⟨r, last, hrun, hlast, hreduce⟩ := hfirst.argument true name [] frames
  rw [List.append_assoc, run_of_append hrun,
    hrest r last frames name [] draft closing hlast hreduce hclosing]
  rfl

theorem noFurther : Symbol.further.Reads [] [] := by
  intro r last frames name before draft closing hlast hreduce hclosing
  have htake : takeMark r.frames last closing .close =
      .ok ⟨frames, .complete (.call name (before.reverse ++ [draft]))⟩ := by
    unfold takeMark
    dsimp only
    rw [hreduce, ← List.reverse_cons]
  rw [List.nil_append, run_cons (accept?_mark hlast hclosing (by decide) htake)]
  rfl

theorem further {comma : Token} {drafts : List Draft} (hcomma : comma.terminal = .mark .comma)
    (hfirst : (Symbol.layer .expression).Reads ts draft) (hrest : Symbol.further.Reads us drafts) :
    Symbol.further.Reads (comma :: (ts ++ us)) (draft :: drafts) := by
  intro r last frames name before previous closing hlast hreduce hclosing
  have htake : takeMark r.frames last comma .comma =
      .ok ⟨.call name (previous :: before) :: frames, .operand false⟩ := by
    unfold takeMark
    dsimp only
    rw [hreduce]
  obtain ⟨r', last', hrun, hlast', hreduce'⟩ := hfirst.argument false name (previous :: before) frames
  rw [List.cons_append, run_cons (accept?_mark hlast hcomma (by decide) htake), List.append_assoc,
    run_of_append hrun, hrest r' last' frames name _ draft closing hlast' hreduce' hclosing,
    List.reverse_cons, List.append_assoc]
  rfl

theorem start {equal : Token} (hequal : equal.terminal = .mark .equal)
    (h : (Symbol.layer .expression).Reads ts draft) : Symbol.start.Reads (equal :: ts) draft := by
  obtain ⟨r, hrun, last, hlast, hreduce, -⟩ := h [] false fun _ _ hframe => by cases hframe
  exact ⟨equal, ts, r, rfl, hequal, hrun, last, hlast, hreduce 0 (Nat.zero_le _) (Nat.zero_le _)⟩

end Symbol.Reads

/-- The reader goes through the tokens of every derivation and makes its draft of them. -/
theorem Derivation.reads {s : Symbol} (d : Derivation s) : s.Reads d.tokens d.draft := by
  induction d with
  | start _ _ hequal ih => exact ih.start hequal
  | pass _ hl ih => exact ih.next hl
  | binary _ _ _ _ hop ihl ihr => exact ihl.binary hop ihr
  | sign _ _ _ hsign ih => exact ih.sign hsign
  | power _ _ _ hcaret ihl ihr => exact ihl.power hcaret ihr
  | percent _ _ hpercent ih => exact ih.percent hpercent
  | literal _ htoken => exact .literal htoken
  | call _ _ _ _ hname hopening hclosing ih => exact ih.call hname hopening hclosing
  | range _ _ _ hcolon ihf ihl => exact ihf.range hcolon ihl
  | single _ ih => exact ih.single
  | group _ _ _ hopening hclosing ih => exact ih.group hopening hclosing
  | address _ htoken => exact ⟨rfl, htoken⟩
  | arguments _ _ ihf ihr => exact ihf.arguments ihr
  | noArguments => exact .noArguments
  | further _ _ _ hcomma ihf ihr => exact ihf.further hcomma ihr
  | noFurther => exact .noFurther

end Spreadsheet.Formula
