import Spreadsheet.Proofs.Except
import Spreadsheet.Proofs.Formula.Grammar
import Spreadsheet.Proofs.Formula.Lexing

/-! What derivations leave of the text. A derivation has a draft, which is read as the tree that the
derivation denotes if the tree has no more levels than a formula may have, and refused otherwise. -/
namespace Spreadsheet.Formula

namespace Derivation

/-- The phrase as it stands in the text, without its layers and parentheses. -/
def draft {s : Symbol} : Derivation s → s.Denotation Draft Token
  | .start _ body _ => body.draft
  | .pass inner _ => inner.draft
  | .binary left op _ right _ => Draft.binary op left.draft right.draft
  | .sign op _ inner _ => Draft.unary op inner.draft
  | .power left _ right _ => Draft.binary .power left.draft right.draft
  | .percent inner _ _ => Draft.unary .percent inner.draft
  | .literal token _ => Draft.leaf token
  | .call name _ args _ _ _ _ => Draft.call name args.draft
  | .range first _ last _ => Draft.range first.draft last.draft
  | .single reference => Draft.leaf reference.draft
  | .group _ body _ _ _ => body.draft
  | .address token _ => token
  | .arguments first rest => List.cons first.draft rest.draft
  | .noArguments => List.nil
  | .further _ first rest _ => List.cons first.draft rest.draft
  | .noFurther => List.nil

/-- How many levels the tree has that a phrase stands for. -/
def height {s : Symbol} : Derivation s → Nat
  | .start _ body _ => body.height
  | .pass inner _ => inner.height
  | .binary left _ _ right _ => max left.height right.height + 1
  | .sign _ _ inner _ => inner.height + 1
  | .power left _ right _ => max left.height right.height + 1
  | .percent inner _ _ => inner.height + 1
  | .literal _ _ => 1
  | .call _ _ args _ _ _ _ => args.height + 1
  | .range _ _ _ _ => 1
  | .single _ => 1
  | .group _ body _ _ _ => body.height
  | .address _ _ => 0
  | .arguments first rest => max first.height rest.height
  | .noArguments => 0
  | .further _ first rest _ => max first.height rest.height
  | .noFurther => 0

end Derivation

/-- Reads what a phrase leaves of the text, `depth` levels below the root. -/
def Symbol.resolveAt (depth : Nat) :
    (s : Symbol) → s.Denotation Draft Token → Except ParseError (s.Denotation Formula Address)
  | .reference, token => Draft.readAddress token
  | .arguments, drafts | .further, drafts => Draft.resolveAll depth drafts
  | .start, draft | .layer _, draft => Draft.resolveAt depth draft

/-! ## Within the limit -/

section

variable {depth : Nat} (h : depth + 1 < Draft.maxHeight) {x y : Except ParseError Formula}
  {xs : Except ParseError (List Formula)}

include h

theorem resolveAt_unary {op : UnaryOp} {operand : Draft}
    (hoperand : operand.resolveAt (depth + 1) = x) :
    (Draft.unary op operand).resolveAt depth = (do return .unary op (← x)) := by
  rw [Draft.resolveAt, if_neg (Nat.not_le.mpr h), hoperand]

theorem resolveAt_binary {op : BinaryOp} {left right : Draft}
    (hleft : left.resolveAt (depth + 1) = x) (hright : right.resolveAt (depth + 1) = y) :
    (Draft.binary op left right).resolveAt depth = (do return .binary op (← x) (← y)) := by
  rw [Draft.resolveAt, if_neg (Nat.not_le.mpr h), hleft, hright]

theorem resolveAt_call {name : Token} {drafts : List Draft}
    (hdrafts : Draft.resolveAll (depth + 1) drafts = xs) :
    (Draft.call name drafts).resolveAt depth =
      (do return .call (String.ofList (Text.upper name.chars)) (← xs)) := by
  rw [Draft.resolveAt, if_neg (Nat.not_le.mpr h), hdrafts]

theorem resolveAt_range {first last : Token} {a b : Except ParseError Address}
    (hfirst : Draft.readAddress first = a) (hlast : Draft.readAddress last = b) :
    (Draft.range first last).resolveAt depth = (do return .range (← a) (← b)) := by
  rw [Draft.resolveAt, if_neg (Nat.not_le.mpr h), hfirst, hlast]

end

theorem resolveAll_cons {depth : Nat} {draft : Draft} {drafts : List Draft}
    {x : Except ParseError Formula} {xs : Except ParseError (List Formula)}
    (hdraft : draft.resolveAt depth = x) (hdrafts : Draft.resolveAll depth drafts = xs) :
    Draft.resolveAll depth (draft :: drafts) = (do return (← x) :: (← xs)) := by
  rw [Draft.resolveAll, hdraft, hdrafts]

namespace Derivation

variable {s : Symbol} {depth : Nat}

theorem readLeaf_reference {token : Token} (h : token.terminal ∈ Terminal.references) :
    Draft.readLeaf token = (Draft.readAddress token).map .cell := by
  unfold Draft.readLeaf
  rcases List.mem_pair.mp h with hterminal | hterminal <;> rw [hterminal]

theorem resolveAt_single : (reference : Derivation .reference) → depth + 1 < Draft.maxHeight →
    (Draft.leaf reference.draft).resolveAt depth = (single reference).value
  | .address token htoken, h => by
    rw [draft, Draft.resolveAt, if_neg (Nat.not_le.mpr h), readLeaf_reference htoken]
    rfl

theorem height_reference : (d : Derivation .reference) → d.height = 0
  | .address _ _ => rfl

/-- What stands in the text is read as the tree that the derivation denotes. -/
theorem resolveAt_draft (d : Derivation s) (h : depth + d.height < Draft.maxHeight) :
    s.resolveAt depth d.draft = d.value := by
  induction d generalizing depth with
  | start _ _ _ ih => exact ih h
  | pass _ _ ih => exact ih h
  | group _ _ _ _ _ ih => exact ih h
  | binary _ op _ _ _ ihl ihr =>
    rw [height] at h
    exact resolveAt_binary (by omega) (ihl (by omega)) (ihr (by omega))
  | power _ _ _ _ ihl ihr =>
    rw [height] at h
    exact resolveAt_binary (by omega) (ihl (by omega)) (ihr (by omega))
  | sign _ _ _ _ ih =>
    rw [height] at h
    exact resolveAt_unary (by omega) (ih (by omega))
  | percent _ _ _ ih =>
    rw [height] at h
    exact resolveAt_unary (by omega) (ih (by omega))
  | call _ _ _ _ _ _ _ ih =>
    rw [height] at h
    exact resolveAt_call (by omega) (ih (by omega))
  | literal _ _ => exact if_neg (Nat.not_le.mpr h)
  | range first _ last _ ihf ihl =>
    rw [height] at h
    exact resolveAt_range h (ihf (by rw [first.height_reference]; omega))
      (ihl (by rw [last.height_reference]; omega))
  | single reference _ => exact resolveAt_single reference h
  | address _ _ => rfl
  | arguments _ _ ihf ihr =>
    rw [height] at h
    exact resolveAll_cons (ihf (by omega)) (ihr (by omega))
  | noArguments => rfl
  | further _ _ _ _ ihf ihr =>
    rw [height] at h
    exact resolveAll_cons (ihf (by omega)) (ihr (by omega))
  | noFurther => rfl

end Derivation

/-! ## Readable tokens -/

/-- Whether the number, reference or code that a token spells is in range. -/
def Token.Readable (token : Token) : Prop :=
  token.terminal ∈ Terminal.literals ++ Terminal.references → (Draft.readLeaf token).isOk

instance (token : Token) : Decidable token.Readable := inferInstanceAs (Decidable (_ → _))

/-- A computation that ends with a result. -/
def Succeeds {α : Type} (x : Except ParseError α) : Prop := ∃ a, x = .ok a

namespace Succeeds

variable {α β γ : Type} {x : Except ParseError α} {y : Except ParseError β}

theorem of_isOk (h : x.isOk) : Succeeds x := by
  cases x with
  | ok a => exact ⟨a, rfl⟩
  | error e => contradiction

theorem one (h : Succeeds x) (g : α → β) : Succeeds (do return g (← x)) := by
  obtain ⟨a, rfl⟩ := h
  exact ⟨g a, rfl⟩

theorem both (hx : Succeeds x) (hy : Succeeds y) (g : α → β → γ) :
    Succeeds (do return g (← x) (← y)) := by
  obtain ⟨a, rfl⟩ := hx
  obtain ⟨b, rfl⟩ := hy
  exact ⟨g a b, rfl⟩

end Succeeds

/-- If all tokens are in range, a derivation denotes a tree. -/
theorem Derivation.succeeds_value {s : Symbol} (d : Derivation s)
    (h : ∀ token ∈ d.tokens, token.Readable) : Succeeds d.value := by
  induction d with
  | pass _ _ ih => exact ih h
  | start _ _ _ ih => exact ih (List.forall_mem_cons.mp h).2
  | group _ _ _ _ _ ih => exact ih (List.forall_mem_append.mp (List.forall_mem_cons.mp h).2).1
  | sign op _ _ _ ih => exact .one (ih (List.forall_mem_cons.mp h).2) (Formula.unary op)
  | percent _ _ _ ih => exact .one (ih (List.forall_mem_append.mp h).1) (Formula.unary .percent)
  | binary _ op _ _ _ ihl ihr =>
    obtain ⟨hleft, hright⟩ := List.forall_mem_append.mp h
    exact .both (ihl hleft) (ihr (List.forall_mem_cons.mp hright).2) (Formula.binary op)
  | power _ _ _ _ ihl ihr =>
    obtain ⟨hleft, hright⟩ := List.forall_mem_append.mp h
    exact .both (ihl hleft) (ihr (List.forall_mem_cons.mp hright).2) (Formula.binary .power)
  | literal token htoken => exact .of_isOk (h token (.head _) (List.mem_append_left _ htoken))
  | single _ ih => exact .one (ih h) Formula.cell
  | range _ _ _ _ ihf ihl =>
    obtain ⟨hfirst, hlast⟩ := List.forall_mem_append.mp h
    exact .both (ihf hfirst) (ihl (List.forall_mem_cons.mp hlast).2) Formula.range
  | address token htoken =>
    have hleaf := h token (.head _) (List.mem_append_right _ htoken)
    rw [readLeaf_reference htoken] at hleaf
    obtain ⟨f, hf⟩ := Succeeds.of_isOk hleaf
    obtain ⟨a, ha, -⟩ := map_eq_ok.mp hf
    exact ⟨a, ha⟩
  | call name _ _ _ _ _ _ ih =>
    obtain ⟨-, hargs⟩ := List.forall_mem_cons.mp (List.forall_mem_cons.mp h).2
    exact .one (ih (List.forall_mem_append.mp hargs).1) (Formula.call _)
  | arguments _ _ ihf ihr =>
    obtain ⟨hfirst, hrest⟩ := List.forall_mem_append.mp h
    exact .both (ihf hfirst) (ihr hrest) List.cons
  | further _ _ _ _ ihf ihr =>
    obtain ⟨hfirst, hrest⟩ := List.forall_mem_append.mp (List.forall_mem_cons.mp h).2
    exact .both (ihf hfirst) (ihr hrest) List.cons
  | noArguments => exact ⟨[], rfl⟩
  | noFurther => exact ⟨[], rfl⟩

/-! ## Beyond the limit -/

/-- A computation that ends with an error. -/
def Refused {α : Type} (x : Except ParseError α) : Prop := ∃ e, x = .error e

namespace Refused

variable {α β : Type} {x : Except ParseError α} {f : α → Except ParseError β}

theorem bind (h : Refused x) (f : α → Except ParseError β) : Refused (x >>= f) := by
  obtain ⟨e, rfl⟩ := h
  exact ⟨e, rfl⟩

theorem bind_right (x : Except ParseError α) (h : ∀ a, Refused (f a)) : Refused (x >>= f) := by
  cases x with
  | ok a => exact h a
  | error e => exact ⟨e, rfl⟩

theorem both {y : Except ParseError β} {γ : Type} {g : α → β → γ} (h : Refused x ∨ Refused y) :
    Refused (do return g (← x) (← y)) := by
  rcases h with h | h
  · exact h.bind _
  · exact bind_right x fun _ => h.bind _

/-- A check in front of a computation that fails for its own part. -/
theorem ite {p : Prop} [Decidable p] {e : ParseError} (h : ¬p → Refused x) :
    Refused (if p then .error e else x) := by
  split
  · exact ⟨e, rfl⟩
  · rename_i hp
    exact h hp

end Refused

namespace Derivation

variable {s : Symbol} {depth : Nat}

/-- A tree with too many levels is refused. -/
theorem refused_draft (d : Derivation s) (hdepth : depth < Draft.maxHeight)
    (h : Draft.maxHeight ≤ depth + d.height) : Refused (s.resolveAt depth d.draft) := by
  induction d generalizing depth with
  | start _ _ _ ih => exact ih hdepth h
  | pass _ _ ih => exact ih hdepth h
  | group _ _ _ _ _ ih => exact ih hdepth h
  | binary _ _ _ _ _ ihl ihr =>
    rw [height] at h
    exact .ite fun _ => .both (.imp (ihl (by omega)) (ihr (by omega)) (by omega))
  | power _ _ _ _ ihl ihr =>
    rw [height] at h
    exact .ite fun _ => .both (.imp (ihl (by omega)) (ihr (by omega)) (by omega))
  | sign _ _ _ _ ih =>
    rw [height] at h
    exact .ite fun _ => .bind (ih (by omega) (by omega)) _
  | percent _ _ _ ih =>
    rw [height] at h
    exact .ite fun _ => .bind (ih (by omega) (by omega)) _
  | call _ _ _ _ _ _ _ ih =>
    rw [height] at h
    exact .ite fun _ => .bind (ih (by omega) (by omega)) _
  | literal _ _ => exact .ite fun hlimit => absurd h hlimit
  | range _ _ _ _ _ _ => exact .ite fun hlimit => absurd h hlimit
  | single _ _ => exact .ite fun hlimit => absurd h hlimit
  | address _ _ => exact absurd h (Nat.not_le.mpr hdepth)
  | arguments _ _ ihf ihr =>
    rw [height] at h
    exact .both (.imp (ihf hdepth) (ihr hdepth) (by omega))
  | noArguments => exact absurd h (Nat.not_le.mpr hdepth)
  | further _ _ _ _ ihf ihr =>
    rw [height] at h
    exact .both (.imp (ihf hdepth) (ihr hdepth) (by omega))
  | noFurther => exact absurd h (Nat.not_le.mpr hdepth)

end Derivation
/-! ## What a draft is refused for -/

/-- A computation that reports no syntax error. -/
def Grammatical {α : Type} (x : Except ParseError α) : Prop :=
  ∀ e, x = .error e → e.isSyntactic = false

namespace Grammatical

variable {α β : Type} {x : Except ParseError α}

theorem not_iff : ¬Grammatical x ↔ ∃ e, x = .error e ∧ e.isSyntactic := by
  simp [Grammatical]

theorem ok (a : α) : Grammatical (.ok a) := fun _ h => by cases h

theorem error {e : ParseError} (h : e.isSyntactic = false) : Grammatical (α := α) (.error e) :=
  fun _ heq => by cases heq; exact h

theorem bind {f : α → Except ParseError β} (hx : Grammatical x) (hf : ∀ a, Grammatical (f a)) :
    Grammatical (x >>= f) := by
  cases x with
  | ok a => exact hf a
  | error e => exact .error (hx e rfl)

theorem map (hx : Grammatical x) (f : α → β) : Grammatical (x.map f) := by
  cases x with
  | ok a => exact .ok (f a)
  | error e => exact .error (hx e rfl)

theorem ite {p : Prop} [Decidable p] {y : Except ParseError α} (hx : Grammatical x)
    (hy : Grammatical y) : Grammatical (if p then x else y) := by
  split
  · exact hx
  · exact hy

end Grammatical

namespace Draft

theorem grammatical_readNumber (token : Token) : Grammatical (readNumber token) := by
  unfold readNumber
  refine .ite ?_ ?_
  · split
    · exact .ite (.ok _) (.error rfl)
    · exact .error rfl
  · split
    · exact .ok _
    · exact .error rfl

theorem grammatical_readErrorCode (token : Token) : Grammatical (readErrorCode token) := by
  unfold readErrorCode
  split
  · exact .ok _
  · exact .error rfl

theorem grammatical_readAddress (token : Token) : Grammatical (readAddress token) := by
  unfold readAddress readRowColumn readCell
  split
  · dsimp only
    split
    · exact .error rfl
    · exact .error rfl
    · exact .ite (.error rfl) (.ok _)
  · split
    · exact .ok _
    · exact .error rfl

theorem grammatical_readLeaf (token : Token) : Grammatical (readLeaf token) := by
  unfold readLeaf
  split
  · exact (grammatical_readNumber token).map _
  · exact .ok _
  · exact .ok _
  · exact (grammatical_readErrorCode token).map _
  · exact (grammatical_readAddress token).map _

mutual

theorem grammatical_resolveAt (depth : Nat) (draft : Draft) : Grammatical (draft.resolveAt depth) := by
  match draft with
  | .leaf token => exact .ite (.error rfl) (grammatical_readLeaf token)
  | .range first last =>
    exact .ite (.error rfl) (.bind (grammatical_readAddress first) fun _ =>
      .bind (grammatical_readAddress last) fun _ => .ok _)
  | .unary op operand =>
    exact .ite (.error rfl) (.bind (grammatical_resolveAt (depth + 1) operand) fun _ => .ok _)
  | .binary op left right =>
    exact .ite (.error rfl) (.bind (grammatical_resolveAt (depth + 1) left) fun _ =>
      .bind (grammatical_resolveAt (depth + 1) right) fun _ => .ok _)
  | .call name drafts =>
    exact .ite (.error rfl) (.bind (grammatical_resolveAll (depth + 1) drafts) fun _ => .ok _)

theorem grammatical_resolveAll (depth : Nat) (drafts : List Draft) :
    Grammatical (resolveAll depth drafts) := by
  match drafts with
  | [] => exact .ok _
  | draft :: drafts =>
    exact .bind (grammatical_resolveAt depth draft) fun _ =>
      .bind (grammatical_resolveAll depth drafts) fun _ => .ok _

end

end Draft

/-- A text is refused for its syntax exactly if it has no draft. -/
theorem grammatical_parse {s : String} : Grammatical (parse s) ↔ ∃ draft, draft? s = .ok draft := by
  unfold parse
  cases hdraft : draft? s with
  | ok draft => exact ⟨fun _ => ⟨draft, rfl⟩, fun _ => Draft.grammatical_resolveAt 0 draft⟩
  | error e =>
    refine ⟨fun h => absurd (h e rfl) ?_, fun ⟨_, h⟩ => by contradiction⟩
    rw [isSyntactic_draft? hdraft]
    exact Bool.noConfusion

end Spreadsheet.Formula
