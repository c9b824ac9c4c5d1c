import Spreadsheet.Proofs.Formula.Soundness

/-! Beginnings of formulas. Whatever the reader has taken can be gone on with: a phrase where one is due,
and the closing parentheses. So the reader takes a row of tokens exactly if some formula begins with it,
and what it does not take goes on no formula. -/
namespace Spreadsheet.Formula

/-- A formula begins with these tokens. -/
def Begins (ts : List Token) : Prop := ∃ d : Derivation .start, ts <+: d.tokens

variable {r r' : Reader} {frames : List Frame} {past ts : List Token} {level : Nat} {draft : Draft}
  {equal token : Token}

/-! ## Going on -/

def closing : Token := ⟨.mark .close, [')'], 1⟩

/-- With a phrase where one is due, the parentheses can be closed. -/
theorem Pending.exists_expression (h : Pending frames past level) (hphrase : Phrase level ts draft) :
    ∃ d : Derivation (.layer .expression), past ++ ts <+: d.tokens := by
  induction h generalizing ts draft with
  | nil =>
    obtain ⟨d, rfl, -⟩ := hphrase.exists_derivation (l := .expression)
    exact ⟨d, List.prefix_rfl⟩
  | @group frames past level opening h hopening ih =>
    obtain ⟨body, rfl, -⟩ := hphrase.exists_derivation (l := .expression)
    obtain ⟨d, hd⟩ := ih ((Phrase.of_derivation (.group opening body closing hopening rfl)).mono
      (Nat.le_trans h.level_le (by decide)))
    refine ⟨d, .trans ⟨[closing], ?_⟩ hd⟩
    simp [Derivation.tokens]
  | @call frames past level name opening read drafts h hname hopening hread ih =>
    obtain ⟨body, rfl, -⟩ := hphrase.exists_derivation (l := .expression)
    obtain ⟨args, hargs, -⟩ := hread body .noFurther
    obtain ⟨d, hd⟩ := ih ((Phrase.of_derivation (.call name opening args closing hname hopening rfl)).mono
      (Nat.le_trans h.level_le (by decide)))
    refine ⟨d, .trans ⟨[closing], ?_⟩ hd⟩
    simp [Derivation.tokens, hargs]
  | @unary frames past level op token h hsign ih =>
    obtain ⟨inner, rfl, -⟩ := hphrase.exists_derivation (l := .sign)
    obtain ⟨d, hd⟩ := ih ((Phrase.of_derivation (.sign op token inner hsign)).mono h.level_le)
    exact ⟨d, by rwa [List.append_assoc]⟩
  | @binary frames past level op token l h left hop hleft ih =>
    obtain ⟨-, -, hl, -, -⟩ := Layer.level_of_operator? hop
    rw [← Layer.level_next hl] at hphrase
    obtain ⟨right, rfl, -⟩ := hphrase.exists_derivation
    obtain ⟨d, hd⟩ := ih ((Phrase.of_derivation (.binary left op token right hop)).mono hleft)
    exact ⟨d, by simpa [Derivation.tokens] using hd⟩
  | @power frames past level caret h left hcaret ih =>
    obtain ⟨right, rfl, -⟩ := hphrase.exists_derivation (l := .sign)
    obtain ⟨d, hd⟩ := ih ((Phrase.of_derivation (.power left caret right hcaret)).mono
      (Nat.le_trans h.level_le (by decide)))
    exact ⟨d, by simpa [Derivation.tokens] using hd⟩

/-- An operand where a phrase is due. -/
theorem Pending.exists_operand (h : Pending frames past level) (operand : Derivation (.layer .operand)) :
    ∃ d : Derivation (.layer .expression), past ++ operand.tokens <+: d.tokens :=
  h.exists_expression ((Phrase.of_derivation operand).mono (Nat.le_trans h.level_le (by decide)))

/-- What a reader has taken begins an expression. -/
theorem Reached.exists_expression (h : Reached r past) :
    ∃ d : Derivation (.layer .expression), past <+: d.tokens := by
  cases h with
  | @operand _ _ _ h =>
    obtain ⟨d, hd⟩ := h.exists_operand (.literal ⟨.number, ['1'], 1⟩ (by decide))
    exact ⟨d, .trans (List.prefix_append _ _) hd⟩
  | @afterCall _ past _ name opening h hname hopening =>
    obtain ⟨d, hd⟩ := h.exists_operand (.call name opening .noArguments closing hname hopening rfl)
    exact ⟨d, .trans ⟨[closing], by simp [Derivation.tokens]⟩ hd⟩
  | @name _ past _ name h hname =>
    obtain ⟨d, hd⟩ := h.exists_operand
      (.call name ⟨.mark .open, ['('], 1⟩ .noArguments closing hname rfl rfl)
    exact ⟨d, .trans ⟨_, List.append_assoc _ _ _⟩ hd⟩
  | reference h htoken => exact h.exists_operand (.single (.address _ htoken))
  | @corner _ past _ first colon h hfirst hcolon =>
    obtain ⟨d, hd⟩ := h.exists_operand
      (.range (.address first hfirst) colon (.address ⟨.cell, ['A', '1'], 1⟩ (by decide)) hcolon)
    exact ⟨d, .trans ⟨_, List.append_assoc _ _ _⟩ hd⟩
  | range h hphrase | complete h hphrase =>
    exact h.exists_expression (hphrase.mono (Nat.le_trans h.level_le (by decide)))

/-! ## What is taken -/

/-- The reader takes exactly the tokens that a formula begins with. -/
theorem begins_cons : Begins (equal :: ts) ↔
    equal.terminal = .mark .equal ∧ ∃ r, Reader.start.run ts = some r := by
  constructor
  · rintro ⟨d, rest, htokens⟩
    obtain ⟨equal', ts', r, heq, hequal, hrun, -⟩ := d.reads
    rw [← htokens, List.cons_append] at heq
    obtain ⟨rfl, rfl⟩ := List.cons.inj heq
    rw [Reader.run_append] at hrun
    obtain ⟨r', hrun, -⟩ := Option.bind_eq_some_iff.mp hrun
    exact ⟨hequal, r', hrun⟩
  · rintro ⟨hequal, r, hrun⟩
    have hreached : Reached .start [] := .operand .nil
    obtain ⟨d, hd⟩ := (hreached.run hrun).exists_expression
    exact ⟨.start equal d hequal, List.prefix_cons_inj equal |>.mpr hd⟩

/-- No formula goes on with a token that the reader does not take. -/
theorem not_begins_of_accept? (hrun : Reader.start.run ts = some r) (haccept : r.accept? token = none) :
    ¬Begins (equal :: ts ++ [token]) := by
  rw [List.cons_append, begins_cons]
  rintro ⟨-, r', hrun'⟩
  rw [Reader.run_append, hrun, Option.bind_some] at hrun'
  obtain ⟨next, hnext, -⟩ := Reader.run_cons_eq_some.mp hrun'
  rw [haccept] at hnext
  contradiction

/-- Where the formula cannot end, what was taken is none. -/
theorem ne_tokens_of_not_ends (hrun : Reader.start.run ts = some r) (hends : ∀ draft, ¬r.Ends draft)
    (d : Derivation .start) : d.tokens ≠ equal :: ts := by
  intro htokens
  obtain ⟨equal', ts', r', heq, -, hrun', hends'⟩ := d.reads
  rw [htokens] at heq
  obtain ⟨rfl, rfl⟩ := List.cons.inj heq
  rw [hrun] at hrun'
  cases hrun'
  exact hends _ hends'

end Spreadsheet.Formula
