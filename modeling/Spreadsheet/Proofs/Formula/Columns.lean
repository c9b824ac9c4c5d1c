import Spreadsheet.Proofs.Except
import Spreadsheet.Proofs.Formula.Drafting

/-! Where tokens stand. The column of a token tells only where an error is: tokens that differ in nothing
else have derivations of the same shape, and these denote the same tree. -/
namespace Spreadsheet.Formula

/-- What a token is, wherever it stands. -/
def Token.content (token : Token) : Terminal × List Char := (token.terminal, token.chars)

/-- One computation has a result where another one does, and the same one. -/
def Refines {ε α : Type} (x y : Except ε α) : Prop := ∀ a, x = .ok a → y = .ok a

namespace Refines

variable {ε α β γ : Type} {x x' : Except ε α} {y y' : Except ε β}

theorem refl (x : Except ε α) : Refines x x := fun _ h => h

theorem map (h : Refines x x') (g : α → β) : Refines (x.map g) (x'.map g) := by
  intro b hb
  obtain ⟨a, ha, rfl⟩ := map_eq_ok.mp hb
  exact map_eq_ok.mpr ⟨a, h a ha, rfl⟩

theorem one (h : Refines x x') (g : α → β) : Refines (do return g (← x)) (do return g (← x')) := by
  intro b hb
  obtain ⟨a, ha, hreturn⟩ := bind_eq_ok.mp hb
  exact bind_eq_ok.mpr ⟨a, h a ha, hreturn⟩

theorem both (hx : Refines x x') (hy : Refines y y') (g : α → β → γ) :
    Refines (do return g (← x) (← y)) (do return g (← x') (← y')) := by
  intro c hc
  obtain ⟨a, ha, hrest⟩ := bind_eq_ok.mp hc
  obtain ⟨b, hb, hreturn⟩ := bind_eq_ok.mp hrest
  exact bind_eq_ok.mpr ⟨a, hx a ha, bind_eq_ok.mpr ⟨b, hy b hb, hreturn⟩⟩

end Refines

/-! ## Leaves -/

namespace Draft

variable {t : Terminal} {cs : List Char} (i j : Nat)

theorem refines_readNumber : Refines (readNumber ⟨t, cs, i⟩) (readNumber ⟨t, cs, j⟩) := by
  intro v h
  unfold readNumber at h ⊢
  dsimp only at h ⊢
  split at h
  · split at h
    · split at h <;> cases h
      simp [*]
    · contradiction
  · split at h <;> cases h
    simp [*]

theorem refines_readErrorCode : Refines (readErrorCode ⟨t, cs, i⟩) (readErrorCode ⟨t, cs, j⟩) := by
  intro v h
  unfold readErrorCode at h ⊢
  dsimp only at h ⊢
  split at h <;> cases h
  rfl

theorem refines_readRowColumn : Refines (readRowColumn ⟨t, cs, i⟩) (readRowColumn ⟨t, cs, j⟩) := by
  intro a h
  unfold readRowColumn at h ⊢
  dsimp only at h ⊢
  split at h
  · contradiction
  · contradiction
  · split at h
    · contradiction
    · simp_all

theorem refines_readCell : Refines (readCell ⟨t, cs, i⟩) (readCell ⟨t, cs, j⟩) := by
  intro a h
  unfold readCell at h ⊢
  dsimp only at h ⊢
  split at h <;> cases h
  simp [*]

theorem refines_readAddress : Refines (readAddress ⟨t, cs, i⟩) (readAddress ⟨t, cs, j⟩) := by
  unfold readAddress
  cases t with
  | rowColumn => exact refines_readRowColumn i j
  | _ => exact refines_readCell i j

theorem refines_readLeaf : Refines (readLeaf ⟨t, cs, i⟩) (readLeaf ⟨t, cs, j⟩) := by
  unfold readLeaf
  cases t with
  | number => exact (refines_readNumber i j).map _
  | text | bool => exact .refl _
  | errorCode => exact (refines_readErrorCode i j).map _
  | rowColumn | cell | name | mark _ => exact (refines_readAddress i j).map _

variable {token token' : Token}

theorem refines_readAddress_of_content (h : token'.content = token.content) :
    Refines (readAddress token) (readAddress token') := by
  obtain ⟨t, cs, i⟩ := token
  obtain ⟨t', cs', j⟩ := token'
  cases h
  exact refines_readAddress i j

theorem refines_readLeaf_of_content (h : token'.content = token.content) :
    Refines (readLeaf token) (readLeaf token') := by
  obtain ⟨t, cs, i⟩ := token
  obtain ⟨t', cs', j⟩ := token'
  cases h
  exact refines_readLeaf i j

end Draft

/-! ## Phrases -/

section

variable {token token' : Token}

theorem Token.terminal_eq (h : token'.content = token.content) : token'.terminal = token.terminal :=
  (Prod.mk.inj h).1

theorem Token.chars_eq (h : token'.content = token.content) : token'.chars = token.chars :=
  (Prod.mk.inj h).2

end

/-- The same tokens elsewhere have a derivation of the same tree. -/
theorem Derivation.exists_of_content {s : Symbol} (d : Derivation s) {ts : List Token}
    (h : ts.map Token.content = d.tokens.map Token.content) :
    ∃ d' : Derivation s, d'.tokens = ts ∧ d'.height = d.height ∧ Refines d.value d'.value := by
  induction d generalizing ts with
  | start equal body hequal ih =>
    obtain ⟨equal', ts, rfl, hcontent, hbody⟩ := List.map_eq_cons_iff.mp h
    obtain ⟨body', rfl, hheight, hvalue⟩ := ih hbody
    exact ⟨.start equal' body' ((Token.terminal_eq hcontent).trans hequal), rfl, hheight, hvalue⟩
  | pass inner hl ih =>
    obtain ⟨inner', rfl, hheight, hvalue⟩ := ih h
    exact ⟨.pass inner' hl, rfl, hheight, hvalue⟩
  | binary left op token right hop ihl ihr =>
    rw [tokens, List.map_append, List.map_cons, List.map_eq_append_iff] at h
    obtain ⟨us, vs, rfl, hleft, hrest⟩ := h
    obtain ⟨token', vs, rfl, hcontent, hright⟩ := List.map_eq_cons_iff.mp hrest
    obtain ⟨left', rfl, hleftHeight, hleftValue⟩ := ihl hleft
    obtain ⟨right', rfl, hrightHeight, hrightValue⟩ := ihr hright
    rw [← Token.terminal_eq hcontent] at hop
    exact ⟨.binary left' op token' right' hop, rfl, by rw [height, height, hleftHeight, hrightHeight],
      hleftValue.both hrightValue (Formula.binary op)⟩
  | sign op token inner hsign ih =>
    obtain ⟨token', ts, rfl, hcontent, hinner⟩ := List.map_eq_cons_iff.mp h
    obtain ⟨inner', rfl, hheight, hvalue⟩ := ih hinner
    rw [← Token.terminal_eq hcontent] at hsign
    exact ⟨.sign op token' inner' hsign, rfl, congrArg (· + 1) hheight, hvalue.one (Formula.unary op)⟩
  | power left caret right hcaret ihl ihr =>
    rw [tokens, List.map_append, List.map_cons, List.map_eq_append_iff] at h
    obtain ⟨us, vs, rfl, hleft, hrest⟩ := h
    obtain ⟨caret', vs, rfl, hcontent, hright⟩ := List.map_eq_cons_iff.mp hrest
    obtain ⟨left', rfl, hleftHeight, hleftValue⟩ := ihl hleft
    obtain ⟨right', rfl, hrightHeight, hrightValue⟩ := ihr hright
    rw [← Token.terminal_eq hcontent] at hcaret
    exact ⟨.power left' caret' right' hcaret, rfl, by rw [height, height, hleftHeight, hrightHeight],
      hleftValue.both hrightValue (Formula.binary .power)⟩
  | percent inner token hpercent ih =>
    rw [tokens, List.map_append, List.map_eq_append_iff] at h
    obtain ⟨us, vs, rfl, hinner, hrest⟩ := h
    obtain ⟨token', rfl, hcontent⟩ := List.map_eq_singleton_iff.mp hrest
    obtain ⟨inner', rfl, hheight, hvalue⟩ := ih hinner
    rw [← Token.terminal_eq hcontent] at hpercent
    exact ⟨.percent inner' token' hpercent, rfl, congrArg (· + 1) hheight,
      hvalue.one (Formula.unary .percent)⟩
  | literal token htoken =>
    obtain ⟨token', rfl, hcontent⟩ := List.map_eq_singleton_iff.mp h
    rw [← Token.terminal_eq hcontent] at htoken
    exact ⟨.literal token' htoken, rfl, rfl, Draft.refines_readLeaf_of_content hcontent⟩
  | call name opening args closing hname hopening hclosing ih =>
    obtain ⟨name', ts, rfl, hcontent, hrest⟩ := List.map_eq_cons_iff.mp h
    obtain ⟨opening', ts, rfl, hfirst, hrest⟩ := List.map_eq_cons_iff.mp hrest
    rw [List.map_append, List.map_eq_append_iff] at hrest
    obtain ⟨us, vs, rfl, hargs, hrest⟩ := hrest
    obtain ⟨closing', rfl, hlast⟩ := List.map_eq_singleton_iff.mp hrest
    obtain ⟨args', rfl, hheight, hvalue⟩ := ih hargs
    rw [← Token.terminal_eq hcontent] at hname
    rw [← Token.terminal_eq hfirst] at hopening
    rw [← Token.terminal_eq hlast] at hclosing
    refine ⟨.call name' opening' args' closing' hname hopening hclosing, rfl,
      congrArg (· + 1) hheight, ?_⟩
    rw [value, value, Token.chars_eq hcontent]
    exact hvalue.one (Formula.call _)
  | range first colon last hcolon ihf ihl =>
    rw [tokens, List.map_append, List.map_cons, List.map_eq_append_iff] at h
    obtain ⟨us, vs, rfl, hfirst, hrest⟩ := h
    obtain ⟨colon', vs, rfl, hcontent, hlast⟩ := List.map_eq_cons_iff.mp hrest
    obtain ⟨first', rfl, -, hfirstValue⟩ := ihf hfirst
    obtain ⟨last', rfl, -, hlastValue⟩ := ihl hlast
    rw [← Token.terminal_eq hcontent] at hcolon
    exact ⟨.range first' colon' last' hcolon, rfl, rfl, hfirstValue.both hlastValue Formula.range⟩
  | single reference ih =>
    obtain ⟨reference', rfl, -, hvalue⟩ := ih h
    exact ⟨.single reference', rfl, rfl, hvalue.one Formula.cell⟩
  | group opening body closing hopening hclosing ih =>
    obtain ⟨opening', ts, rfl, hfirst, hrest⟩ := List.map_eq_cons_iff.mp h
    rw [List.map_append, List.map_eq_append_iff] at hrest
    obtain ⟨us, vs, rfl, hbody, hrest⟩ := hrest
    obtain ⟨closing', rfl, hlast⟩ := List.map_eq_singleton_iff.mp hrest
    obtain ⟨body', rfl, hheight, hvalue⟩ := ih hbody
    rw [← Token.terminal_eq hfirst] at hopening
    rw [← Token.terminal_eq hlast] at hclosing
    exact ⟨.group opening' body' closing' hopening hclosing, rfl, hheight, hvalue⟩
  | address token htoken =>
    obtain ⟨token', rfl, hcontent⟩ := List.map_eq_singleton_iff.mp h
    rw [← Token.terminal_eq hcontent] at htoken
    exact ⟨.address token' htoken, rfl, rfl, Draft.refines_readAddress_of_content hcontent⟩
  | arguments first rest ihf ihr =>
    rw [tokens, List.map_append, List.map_eq_append_iff] at h
    obtain ⟨us, vs, rfl, hfirst, hrest⟩ := h
    obtain ⟨first', rfl, hfirstHeight, hfirstValue⟩ := ihf hfirst
    obtain ⟨rest', rfl, hrestHeight, hrestValue⟩ := ihr hrest
    exact ⟨.arguments first' rest', rfl, by rw [height, height, hfirstHeight, hrestHeight],
      hfirstValue.both hrestValue List.cons⟩
  | noArguments => exact ⟨.noArguments, (List.map_eq_nil_iff.mp h).symm, rfl, .refl _⟩
  | further comma first rest hcomma ihf ihr =>
    obtain ⟨comma', ts, rfl, hcontent, htail⟩ := List.map_eq_cons_iff.mp h
    rw [List.map_append, List.map_eq_append_iff] at htail
    obtain ⟨us, vs, rfl, hfirst, hrest⟩ := htail
    obtain ⟨first', rfl, hfirstHeight, hfirstValue⟩ := ihf hfirst
    obtain ⟨rest', rfl, hrestHeight, hrestValue⟩ := ihr hrest
    rw [← Token.terminal_eq hcontent] at hcomma
    exact ⟨.further comma' first' rest' hcomma, rfl, by rw [height, height, hfirstHeight, hrestHeight],
      hfirstValue.both hrestValue List.cons⟩
  | noFurther => exact ⟨.noFurther, (List.map_eq_nil_iff.mp h).symm, rfl, .refl _⟩

end Spreadsheet.Formula
