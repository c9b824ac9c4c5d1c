import Spreadsheet.Formula.Parser

/-! The grammar of formulas, with a layer for each precedence of operators, and the derivations of token
sequences in it. A token sequence has at most one derivation: what follows a phrase of a layer tells
whether it goes on, and two derivations with the same tokens cannot part before that. -/
namespace Spreadsheet.Formula

/-- What an expression is made of, from the loosest operators to single operands. -/
inductive Layer where
  | expression
  | comparison
  | concatenation
  | addition
  | multiplication
  | sign
  | power
  | percentage
  | operand
deriving DecidableEq

namespace Layer

def next : Layer → Layer
  | .expression => .comparison
  | .comparison => .concatenation
  | .concatenation => .addition
  | .addition => .multiplication
  | .multiplication => .sign
  | .sign => .power
  | .power => .percentage
  | .percentage | .operand => .operand

/-- The operators that group to the left. -/
def operator? : Layer → Terminal → Option BinaryOp
  | .comparison, .mark .equal => some .equal
  | .comparison, .mark .notEqual => some .notEqual
  | .comparison, .mark .less => some .less
  | .comparison, .mark .greater => some .greater
  | .comparison, .mark .lessEqual => some .lessEqual
  | .comparison, .mark .greaterEqual => some .greaterEqual
  | .concatenation, .mark .ampersand => some .join
  | .addition, .mark .plus => some .add
  | .addition, .mark .minus => some .subtract
  | .multiplication, .mark .star => some .multiply
  | .multiplication, .mark .slash => some .divide
  | _, _ => none

end Layer

def Terminal.sign? : Terminal → Option UnaryOp
  | .mark .minus => some .minus
  | .mark .plus => some .plus
  | _ => none

def Terminal.literals : List Terminal := [.number, .bool, .text, .errorCode]

def Terminal.references : List Terminal := [.cell, .rowColumn]

inductive Symbol where
  | start
  | layer (layer : Layer)
  | reference
  | arguments
  /-- The arguments after the first one. -/
  | further

/-- The derivations from a symbol, with one constructor for each production or family of productions. -/
inductive Derivation : Symbol → Type where
  | start (equal : Token) (body : Derivation (.layer .expression)) :
    equal.terminal = .mark .equal → Derivation .start
  | pass {l : Layer} (inner : Derivation (.layer l.next)) : l ≠ .operand → Derivation (.layer l)
  | binary {l : Layer} (left : Derivation (.layer l)) (op : BinaryOp) (token : Token)
    (right : Derivation (.layer l.next)) : l.operator? token.terminal = some op → Derivation (.layer l)
  | sign (op : UnaryOp) (token : Token) (inner : Derivation (.layer .sign)) :
    token.terminal.sign? = some op → Derivation (.layer .sign)
  | power (left : Derivation (.layer .percentage)) (caret : Token)
    (right : Derivation (.layer .sign)) : caret.terminal = .mark .caret → Derivation (.layer .power)
  | percent (inner : Derivation (.layer .percentage)) (token : Token) :
    token.terminal = .mark .percent → Derivation (.layer .percentage)
  | literal (token : Token) :
    token.terminal ∈ Terminal.literals → Derivation (.layer .operand)
  | call (name opening : Token) (args : Derivation .arguments) (closing : Token) :
    name.terminal = .name → opening.terminal = .mark .open → closing.terminal = .mark .close →
      Derivation (.layer .operand)
  | range (first : Derivation .reference) (colon : Token) (last : Derivation .reference) :
    colon.terminal = .mark .colon → Derivation (.layer .operand)
  | single (reference : Derivation .reference) : Derivation (.layer .operand)
  | group (opening : Token) (body : Derivation (.layer .expression)) (closing : Token) :
    opening.terminal = .mark .open → closing.terminal = .mark .close → Derivation (.layer .operand)
  | address (token : Token) : token.terminal ∈ Terminal.references → Derivation .reference
  | arguments (first : Derivation (.layer .expression)) (rest : Derivation .further) :
    Derivation .arguments
  | noArguments : Derivation .arguments
  | further (comma : Token) (first : Derivation (.layer .expression)) (rest : Derivation .further) :
    comma.terminal = .mark .comma → Derivation .further
  | noFurther : Derivation .further

namespace Derivation

/-- The token sequence that is derived. -/
def tokens {s : Symbol} : Derivation s → List Token
  | .start equal body _ => equal :: body.tokens
  | .pass inner _ => inner.tokens
  | .binary left _ token right _ => left.tokens ++ token :: right.tokens
  | .sign _ token inner _ => token :: inner.tokens
  | .power left caret right _ => left.tokens ++ caret :: right.tokens
  | .percent inner token _ => inner.tokens ++ [token]
  | .literal token _ => [token]
  | .call name opening args closing _ _ _ => name :: opening :: (args.tokens ++ [closing])
  | .range first colon last _ => first.tokens ++ colon :: last.tokens
  | .single reference => reference.tokens
  | .group opening body closing _ _ => opening :: (body.tokens ++ [closing])
  | .address token _ => [token]
  | .arguments first rest => first.tokens ++ rest.tokens
  | .noArguments => []
  | .further comma first rest _ => comma :: (first.tokens ++ rest.tokens)
  | .noFurther => []

end Derivation

/-- What a phrase stands for, where a phrase of a single reference stands for an `α` and any other one
for trees. -/
abbrev Symbol.Denotation (tree α : Type) : Symbol → Type
  | .reference => α
  | .arguments | .further => List tree
  | .start | .layer _ => tree

namespace Derivation

/-- The tree that a derivation denotes. The literals and references are read from left to right. -/
def value {s : Symbol} : Derivation s → Except ParseError (s.Denotation Formula Address)
  | .start _ body _ => body.value
  | .pass inner _ => inner.value
  | .binary left op _ right _ => do return .binary op (← left.value) (← right.value)
  | .sign op _ inner _ => do return .unary op (← inner.value)
  | .power left _ right _ => do return .binary .power (← left.value) (← right.value)
  | .percent inner _ _ => do return .unary .percent (← inner.value)
  | .literal token _ => Draft.readLeaf token
  | .call name _ args _ _ _ _ => do
    return .call (String.ofList (Text.upper name.chars)) (← args.value)
  | .range first _ last _ => do return .range (← first.value) (← last.value)
  | .single reference => do return .cell (← reference.value)
  | .group _ body _ _ _ => body.value
  | .address token _ => Draft.readAddress token
  | .arguments first rest => do return (← first.value) :: (← rest.value)
  | .noArguments => return []
  | .further _ first rest _ => do return (← first.value) :: (← rest.value)
  | .noFurther => return []

end Derivation

/-! ## Layers and what may follow them -/

/-- How tightly the operators of a layer bind. -/
def Layer.level : Layer → Nat
  | .expression => 0
  | .comparison => 1
  | .concatenation => 2
  | .addition => 3
  | .multiplication => 4
  | .sign => 5
  | .power => 6
  | .percentage => 7
  | .operand => 8

/-- Whether the phrases of a layer grow to the right. -/
def Layer.grows : Layer → Bool
  | .comparison | .concatenation | .addition | .multiplication | .percentage => true
  | _ => false

/-- The level at which a token makes the phrase before it go on. -/
def Terminal.level? : Terminal → Option Nat
  | .mark .equal | .mark .notEqual | .mark .less | .mark .greater | .mark .lessEqual
  | .mark .greaterEqual => some 1
  | .mark .ampersand => some 2
  | .mark .plus | .mark .minus => some 3
  | .mark .star | .mark .slash => some 4
  | .mark .caret => some 6
  | .mark .percent => some 7
  | .mark .colon => some 8
  | _ => none

/-- Whether a phrase of a level cannot go on with the next token. -/
def StopsAt (level : Nat) (rest : List Token) : Prop :=
  ∀ token ∈ rest.head?, ∀ k ∈ token.terminal.level?, k < level

theorem Layer.level_next {l : Layer} (h : l ≠ .operand) : l.next.level = l.level + 1 := by
  cases l <;> first | rfl | exact absurd rfl h

theorem Layer.level_of_operator? {l : Layer} {t : Terminal} {op : BinaryOp}
    (h : l.operator? t = some op) :
    t.level? = some l.level ∧ op.precedence = l.level ∧ l ≠ .operand ∧ l.grows ∧ l.level ≤ 4 := by
  unfold operator? at h
  split at h <;> cases h <;> exact ⟨rfl, rfl, by decide, rfl, by decide⟩

section StopsAt

variable {level : Nat} {token : Token} {rest : List Token}

theorem stopsAt_nil (level : Nat) : StopsAt level [] := by simp [StopsAt]

theorem StopsAt.mono {k : Nat} (h : StopsAt level rest) (hle : level ≤ k) : StopsAt k rest :=
  fun token htoken j hj => Nat.lt_of_lt_of_le (h token htoken j hj) hle

theorem stopsAt_cons (token : Token) (rest : List Token) :
    StopsAt level (token :: rest) ↔ ∀ k ∈ token.terminal.level?, k < level := by
  simp [StopsAt]

theorem stopsAt_of_level? {k : Nat} (h : token.terminal.level? = some k) (hk : k < level) :
    StopsAt level (token :: rest) := by
  rw [stopsAt_cons, h]
  rintro _ ⟨rfl⟩
  exact hk

theorem not_stopsAt_of_level? {k : Nat} (h : token.terminal.level? = some k) (hk : level ≤ k) :
    ¬StopsAt level (token :: rest) := by
  rw [stopsAt_cons, h]
  intro hstops
  exact absurd (hstops k rfl) (Nat.not_lt.mpr hk)

theorem stopsAt_of_none (h : token.terminal.level? = none) : StopsAt level (token :: rest) := by
  rw [stopsAt_cons, h]
  simp

/-- No operator goes on at the level of the signs. -/
theorem StopsAt.sign (h : StopsAt 6 rest) : StopsAt 5 rest := by
  intro token htoken k hk
  have hlt := h token htoken k hk
  have hne : k ≠ 5 := by
    rintro rfl
    unfold Terminal.level? at hk
    split at hk <;> cases hk
  omega

end StopsAt

/-! ## First tokens -/

theorem Terminal.literals_start : ∀ t ∈ literals, t ∈ Focus.operandStarts ∧ t.sign? = none := by
  decide

theorem Terminal.references_start : ∀ t ∈ references, t ∈ Focus.operandStarts ∧ t.sign? = none := by
  decide

theorem Terminal.sign?_start {t : Terminal} {op : UnaryOp} (h : t.sign? = some op) :
    t ∈ Focus.operandStarts := by
  unfold sign? at h
  split at h <;> first | decide | contradiction

namespace Derivation

theorem exists_token : (d : Derivation .reference) →
    ∃ token, d.tokens = [token] ∧ token.terminal ∈ Terminal.references
  | .address token htoken => ⟨token, rfl, htoken⟩

/-- A phrase starts as an operand does, and with a sign only if the layer has signs. -/
theorem exists_first {l : Layer} : (d : Derivation (.layer l)) →
    ∃ token rest, d.tokens = token :: rest ∧ token.terminal ∈ Focus.operandStarts ∧
      (5 < l.level → token.terminal.sign? = none)
  | .pass inner hl => by
    obtain ⟨token, rest, htokens, hstart, hsign⟩ := inner.exists_first
    exact ⟨token, rest, htokens, hstart, fun hlevel => hsign (by rw [Layer.level_next hl]; omega)⟩
  | .binary left op token right hop => by
    obtain ⟨first, rest, htokens, hstart, hsign⟩ := left.exists_first
    exact ⟨first, rest ++ token :: right.tokens, by rw [tokens, htokens]; rfl, hstart, hsign⟩
  | .sign op token inner htoken =>
    ⟨token, inner.tokens, rfl, Terminal.sign?_start htoken, fun hlevel => absurd hlevel (by decide)⟩
  | .power left caret right _ => by
    obtain ⟨first, rest, htokens, hstart, hsign⟩ := left.exists_first
    exact ⟨first, rest ++ caret :: right.tokens, by rw [tokens, htokens]; rfl, hstart,
      fun _ => hsign (by decide)⟩
  | .percent inner token _ => by
    obtain ⟨first, rest, htokens, hstart, hsign⟩ := inner.exists_first
    exact ⟨first, rest ++ [token], by rw [tokens, htokens]; rfl, hstart, hsign⟩
  | .literal token htoken =>
    ⟨token, [], rfl, (Terminal.literals_start _ htoken).1,
      fun _ => (Terminal.literals_start _ htoken).2⟩
  | .call name opening args closing hname _ _ =>
    ⟨name, _, rfl, by rw [hname]; decide, fun _ => by rw [hname]; rfl⟩
  | .range first colon last _ => by
    obtain ⟨token, htokens, htoken⟩ := first.exists_token
    obtain ⟨hstart, hsign⟩ := Terminal.references_start _ htoken
    exact ⟨token, colon :: last.tokens, by rw [tokens, htokens]; rfl, hstart, fun _ => hsign⟩
  | .single reference => by
    obtain ⟨token, htokens, htoken⟩ := reference.exists_token
    obtain ⟨hstart, hsign⟩ := Terminal.references_start _ htoken
    exact ⟨token, [], htokens, hstart, fun _ => hsign⟩
  | .group opening body closing hopening _ =>
    ⟨opening, _, rfl, by rw [hopening]; decide, fun _ => by rw [hopening]; rfl⟩

end Derivation

/-! ## Unique derivations -/

/-- What may follow a phrase that does not grow further. -/
def Symbol.Stops : Symbol → List Token → Prop
  | .start, rest => StopsAt 0 rest
  | .layer l, rest => StopsAt l.level rest
  | .reference, _ => True
  | .arguments, rest | .further, rest => ∃ token ∈ rest.head?, token.terminal = .mark .close

/-- What may follow a phrase, whether it grows further or not. -/
def Symbol.Pauses : Symbol → List Token → Prop
  | .layer l, rest => StopsAt (if l.grows then l.level + 1 else l.level) rest
  | s, rest => s.Stops rest

namespace Derivation

variable {s : Symbol} {l : Layer} {ts rest rest' : List Token}

/-- The derivation `d'` starts with the phrase `d` of the same layer and goes on with `ts`. -/
inductive Grows : {s : Symbol} → Derivation s → List Token → Derivation s → Prop where
  | refl {s : Symbol} (d : Derivation s) : Grows d [] d
  | binary {l : Layer} {left d' : Derivation (.layer l)} {op : BinaryOp} {token : Token}
    {right : Derivation (.layer l.next)} {hop : l.operator? token.terminal = some op}
    {ts : List Token} : Grows (.binary left op token right hop) ts d' →
      Grows left (token :: (right.tokens ++ ts)) d'
  | percent {inner d' : Derivation (.layer .percentage)} {token : Token}
    {htoken : token.terminal = .mark .percent} {ts : List Token} :
    Grows (.percent inner token htoken) ts d' → Grows inner (token :: ts) d'

theorem Grows.tokens {d d' : Derivation s} (h : Grows d ts d') : d'.tokens = d.tokens ++ ts := by
  induction h with
  | refl d => simp
  | binary _ ih => rw [ih]; simp [Derivation.tokens]
  | percent _ ih => rw [ih]; simp [Derivation.tokens]

theorem Grows.trans {ts' : List Token} {d d' d'' : Derivation s} (h : Grows d ts d')
    (h' : Grows d' ts' d'') : Grows d (ts ++ ts') d'' := by
  induction h with
  | refl d => exact h'
  | binary _ ih =>
    have hgrows := (ih h').binary
    rwa [← List.append_assoc] at hgrows
  | percent _ ih => exact (ih h').percent

/-- What a phrase grows by starts with an operator of its layer. -/
theorem Grows.eq_or_level {d d' : Derivation (.layer l)} (h : Grows d ts d') :
    (d = d' ∧ ts = []) ∨ ∃ token rest, ts = token :: rest ∧ token.terminal.level? = some l.level := by
  cases h with
  | refl _ => exact .inl ⟨rfl, rfl⟩
  | @binary _ _ _ _ token right hop ts _ =>
    exact .inr ⟨token, right.tokens ++ ts, rfl, (Layer.level_of_operator? hop).1⟩
  | @percent _ _ token htoken ts _ => exact .inr ⟨token, ts, rfl, by rw [htoken]; rfl⟩

theorem Grows.stops {d d' : Derivation (.layer l)} (h : Grows d ts d') (hrest : StopsAt l.level rest) :
    StopsAt (l.level + 1) (ts ++ rest) := by
  rcases h.eq_or_level with ⟨-, rfl⟩ | ⟨token, tail, rfl, hlevel⟩
  · exact hrest.mono (Nat.le_succ _)
  · exact stopsAt_of_level? hlevel (Nat.lt_succ_self _)

/-- What can be derived from a layer whose phrases grow starts with a phrase of the next one. -/
theorem exists_grows {l : Layer} : (d' : Derivation (.layer l)) → l.grows = false ∨
    ∃ (inner : Derivation (.layer l.next)) (h : l ≠ .operand) (ts : List Token),
      Grows (.pass inner h) ts d'
  | .pass inner h => .inr ⟨inner, h, [], .refl _⟩
  | .binary left op token right hop => by
    rcases exists_grows left with hl | ⟨inner, h, ts, hgrows⟩
    · exact .inl hl
    · exact .inr ⟨inner, h, _, hgrows.trans (.binary (.refl _))⟩
  | .percent inner token htoken => by
    rcases exists_grows inner with hl | ⟨first, h, ts, hgrows⟩
    · exact .inl hl
    · exact .inr ⟨first, h, _, hgrows.trans (.percent (.refl _))⟩
  | .sign .. => .inl rfl
  | .power .. => .inl rfl
  | .literal .. => .inl rfl
  | .call .. => .inl rfl
  | .range .. => .inl rfl
  | .single .. => .inl rfl
  | .group .. => .inl rfl

/-- Whether a phrase is found at the left end of all that can be derived in another way. -/
def Parted (d : Derivation s) : Prop :=
  ∀ (d' : Derivation s) (rest rest' : List Token), d.tokens ++ rest = d'.tokens ++ rest' →
    s.Pauses rest → s.Stops rest' → ∃ ts, Grows d ts d' ∧ rest = ts ++ rest'

theorem Parted.unique {d d' : Derivation s} (h : d.Parted)
    (htokens : d.tokens ++ rest = d'.tokens ++ rest') (hrest : s.Stops rest)
    (hrest' : s.Stops rest') : d = d' ∧ rest = rest' := by
  cases s with
  | layer l =>
    obtain ⟨ts, hgrows, rfl⟩ := h d' rest rest' htokens (hrest.mono (by split <;> omega)) hrest'
    rcases hgrows.eq_or_level with ⟨rfl, rfl⟩ | ⟨token, tail, rfl, hlevel⟩
    · exact ⟨rfl, rfl⟩
    · exact absurd hrest (not_stopsAt_of_level? hlevel (Nat.le_refl _))
  | _ =>
    obtain ⟨ts, hgrows, rfl⟩ := h d' rest rest' htokens hrest hrest'
    cases hgrows
    exact ⟨rfl, rfl⟩

theorem Parted.of_eq {d : Derivation s} (h : ∀ (d' : Derivation s) (rest rest' : List Token),
    d.tokens ++ rest = d'.tokens ++ rest' → s.Pauses rest → s.Stops rest' → d = d' ∧ rest = rest') :
    d.Parted := by
  intro d' rest rest' htokens hrest hrest'
  obtain ⟨rfl, rfl⟩ := h d' rest rest' htokens hrest hrest'
  exact ⟨[], .refl _, rfl⟩

/-! ### Layers -/

theorem pauses_iff (hl : l.grows) : (Symbol.layer l).Pauses rest ↔ StopsAt (l.level + 1) rest := by
  change StopsAt (if l.grows then l.level + 1 else l.level) rest ↔ _
  rw [if_pos hl]

theorem stops_next (hl : l ≠ .operand) :
    (Symbol.layer l.next).Stops rest ↔ StopsAt (l.level + 1) rest := by
  change StopsAt l.next.level rest ↔ _
  rw [Layer.level_next hl]

/-- The first token of a phrase tells whether a sign stands before it. -/
theorem ne_sign {op : UnaryOp} {token : Token} {inner : Derivation (.layer .sign)}
    {htoken : token.terminal.sign? = some op} (d : Derivation (.layer .power)) :
    d.tokens ++ rest ≠ (sign op token inner htoken).tokens ++ rest' := by
  obtain ⟨first, tail, htokens, -, hfirst⟩ := d.exists_first
  intro heq
  simp only [tokens, htokens, List.cons_append, List.cons.injEq] at heq
  obtain ⟨rfl, -⟩ := heq
  rw [hfirst (by decide)] at htoken
  contradiction

theorem ne_power {left : Derivation (.layer .percentage)} {caret : Token}
    {right : Derivation (.layer .sign)} {hcaret : caret.terminal = .mark .caret}
    {d : Derivation (.layer .percentage)} (h : d.Parted) (hrest : StopsAt 6 rest) :
    d.tokens ++ rest ≠ (power left caret right hcaret).tokens ++ rest' := by
  have hlevel : caret.terminal.level? = some 6 := by
    rw [hcaret]
    rfl
  intro heq
  simp only [tokens, List.append_assoc, List.cons_append] at heq
  obtain ⟨-, rfl⟩ := h.unique heq (hrest.mono (by decide)) (stopsAt_of_level? hlevel (by decide))
  exact not_stopsAt_of_level? hlevel (Nat.le_refl _) hrest

theorem parted_pass (inner : Derivation (.layer l.next)) (hl : l ≠ .operand) (ih : inner.Parted) :
    (pass inner hl).Parted := by
  intro d' rest rest' heq hrest hrest'
  have hpauses : (Symbol.layer l.next).Stops rest := by
    rw [stops_next hl]
    exact hrest.mono (by split <;> omega)
  rcases exists_grows d' with hstays | ⟨inner', hl', ts, hgrows⟩
  · have hstops : StopsAt l.level rest := hrest.mono (by rw [hstays]; simp)
    cases d' with
    | pass inner' _ =>
      obtain ⟨rfl, rfl⟩ := ih.unique heq hpauses ((stops_next hl).mpr (hrest'.mono (Nat.le_succ _)))
      exact ⟨[], .refl _, rfl⟩
    | binary _ _ _ _ hop =>
      have hgrows := (Layer.level_of_operator? hop).2.2.2.1
      rw [hstays] at hgrows
      contradiction
    | sign _ _ _ _ => exact absurd heq (ne_sign inner)
    | power _ _ _ _ => exact absurd heq (ne_power ih hstops)
    | percent _ _ _ => contradiction
    | _ => exact absurd rfl hl
  · rw [hgrows.tokens, List.append_assoc] at heq
    obtain ⟨rfl, rfl⟩ := ih.unique heq hpauses ((stops_next hl).mpr (hgrows.stops hrest'))
    exact ⟨ts, hgrows, rfl⟩

theorem parted_binary (left : Derivation (.layer l)) (op : BinaryOp) (token : Token)
    (right : Derivation (.layer l.next)) (hop : l.operator? token.terminal = some op)
    (ihl : left.Parted) (ihr : right.Parted) : (binary left op token right hop).Parted := by
  obtain ⟨hlevel, -, hl, hgrows, -⟩ := Layer.level_of_operator? hop
  intro d' rest rest' heq hrest hrest'
  rw [pauses_iff hgrows] at hrest
  simp only [tokens, List.append_assoc, List.cons_append] at heq
  obtain ⟨ts, hgrown, hts⟩ := ihl d' _ rest' heq
    ((pauses_iff hgrows).mpr (stopsAt_of_level? hlevel (Nat.lt_succ_self _))) hrest'
  cases hgrown with
  | refl _ =>
    rw [List.nil_append] at hts
    exact absurd hrest' (hts ▸ not_stopsAt_of_level? hlevel (Nat.le_refl _))
  | @binary _ _ _ op' token' right' hop' ts hgrown =>
    simp only [List.append_assoc, List.cons_append, List.cons.injEq] at hts
    obtain ⟨rfl, hts⟩ := hts
    obtain ⟨rfl, rfl⟩ := ihr.unique hts ((stops_next hl).mpr hrest)
      ((stops_next hl).mpr (hgrown.stops hrest'))
    rw [hop] at hop'
    cases hop'
    exact ⟨ts, hgrown, rfl⟩
  | percent _ => contradiction

theorem parted_percent (inner : Derivation (.layer .percentage)) (token : Token)
    (htoken : token.terminal = .mark .percent) (ih : inner.Parted) :
    (percent inner token htoken).Parted := by
  have hlevel : token.terminal.level? = some Layer.percentage.level := by
    rw [htoken]
    rfl
  intro d' rest rest' heq hrest hrest'
  simp only [tokens, List.append_assoc, List.cons_append, List.nil_append] at heq
  obtain ⟨ts, hgrown, hts⟩ := ih d' _ rest' heq (stopsAt_of_level? hlevel (by decide)) hrest'
  cases hgrown with
  | refl _ =>
    rw [List.nil_append] at hts
    exact absurd hrest' (hts ▸ not_stopsAt_of_level? hlevel (Nat.le_refl _))
  | binary _ => contradiction
  | @percent _ _ token' htoken' ts hgrown =>
    simp only [List.cons_append, List.cons.injEq] at hts
    obtain ⟨rfl, rfl⟩ := hts
    exact ⟨ts, hgrown, rfl⟩

theorem parted_sign (op : UnaryOp) (token : Token) (inner : Derivation (.layer .sign))
    (htoken : token.terminal.sign? = some op) (ih : inner.Parted) :
    (sign op token inner htoken).Parted := by
  refine .of_eq fun d' rest rest' heq hrest hrest' => ?_
  cases d' with
  | sign op' token' inner' htoken' =>
    simp only [tokens, List.cons_append, List.cons.injEq] at heq
    obtain ⟨rfl, heq⟩ := heq
    obtain ⟨rfl, rfl⟩ := ih.unique heq hrest hrest'
    rw [htoken] at htoken'
    cases htoken'
    exact ⟨rfl, rfl⟩
  | pass inner' _ => exact absurd heq.symm (ne_sign inner')
  | binary _ _ _ _ hop => contradiction

theorem parted_power (left : Derivation (.layer .percentage)) (caret : Token)
    (right : Derivation (.layer .sign)) (hcaret : caret.terminal = .mark .caret) (ihl : left.Parted)
    (ihr : right.Parted) : (power left caret right hcaret).Parted := by
  have hlevel : caret.terminal.level? = some Layer.power.level := by
    rw [hcaret]
    rfl
  refine .of_eq fun d' rest rest' heq hrest hrest' => ?_
  cases d' with
  | power left' caret' right' hcaret' =>
    simp only [tokens, List.append_assoc, List.cons_append] at heq
    have hlevel' : caret'.terminal.level? = some Layer.power.level := by
      rw [hcaret']
      rfl
    obtain ⟨rfl, htail⟩ := ihl.unique heq (stopsAt_of_level? hlevel (by decide))
      (stopsAt_of_level? hlevel' (by decide))
    obtain ⟨rfl, hright⟩ := List.cons.inj htail
    obtain ⟨rfl, rfl⟩ := ihr.unique hright (StopsAt.sign hrest) (StopsAt.sign hrest')
    exact ⟨rfl, rfl⟩
  | pass inner' _ =>
    simp only [tokens, List.append_assoc, List.cons_append] at heq
    obtain ⟨-, rfl⟩ := ihl.unique heq (stopsAt_of_level? hlevel (by decide)) (hrest'.mono (by decide))
    exact absurd hrest' (not_stopsAt_of_level? hlevel (Nat.le_refl _))
  | binary _ _ _ _ hop => contradiction

/-! ### Operands and arguments -/

/-- The kinds of operands. -/
inductive Form where
  | literal
  | call
  | reference
  | group

def form? : Derivation (.layer .operand) → Option Form
  | .literal .. => some .literal
  | .call .. => some .call
  | .range .. | .single .. => some .reference
  | .group .. => some .group
  | .pass .. | .binary .. => none

/-- The kind of the operands that start with a token. -/
def startForm? : Terminal → Option Form
  | .number | .bool | .text | .errorCode => some .literal
  | .name => some .call
  | .cell | .rowColumn => some .reference
  | .mark .open => some .group
  | _ => none

theorem startForm?_literals : ∀ t ∈ Terminal.literals, startForm? t = some .literal := by
  simp [Terminal.literals, startForm?]

theorem startForm?_references : ∀ t ∈ Terminal.references, startForm? t = some .reference := by
  simp [Terminal.references, startForm?]

theorem exists_form : (d : Derivation (.layer .operand)) →
    ∃ token rest, d.tokens = token :: rest ∧ startForm? token.terminal = d.form?
  | .literal token htoken => ⟨token, [], rfl, startForm?_literals _ htoken⟩
  | .call name opening args closing hname _ _ => ⟨name, _, rfl, by rw [hname]; rfl⟩
  | .range (.address first hfirst) colon last _ => ⟨first, _, rfl, startForm?_references _ hfirst⟩
  | .single (.address token htoken) => ⟨token, _, rfl, startForm?_references _ htoken⟩
  | .group opening body closing hopening _ => ⟨opening, _, rfl, by rw [hopening]; rfl⟩
  | .pass _ hl => absurd rfl hl

theorem form?_eq {d d' : Derivation (.layer .operand)} (h : d.tokens ++ rest = d'.tokens ++ rest') :
    d.form? = d'.form? := by
  obtain ⟨token, tail, htokens, hform⟩ := d.exists_form
  obtain ⟨token', tail', htokens', hform'⟩ := d'.exists_form
  rw [htokens, htokens'] at h
  rw [← hform, ← hform', (List.cons.inj h).1]

/-- What closes a list of arguments starts no expression and stops any. -/
theorem stops_closing (h : ∃ token ∈ rest.head?, token.terminal = .mark .close) : StopsAt 0 rest := by
  obtain ⟨token, htoken, hterminal⟩ := h
  intro token' htoken' k hk
  rw [Option.mem_unique htoken' htoken, hterminal] at hk
  contradiction

theorem ne_closing {d : Derivation (.layer l)}
    (h : ∃ token ∈ rest'.head?, token.terminal = .mark .close) : d.tokens ++ rest ≠ rest' := by
  obtain ⟨first, tail, htokens, hstart, -⟩ := d.exists_first
  obtain ⟨token, htoken, hterminal⟩ := h
  rintro rfl
  rw [htokens] at htoken
  cases htoken
  rw [hterminal] at hstart
  exact absurd hstart (by decide)

theorem further_ne_closing {comma : Token} {first : Derivation (.layer .expression)}
    {further : Derivation .further} {hcomma : comma.terminal = .mark .comma}
    (h : ∃ token ∈ rest'.head?, token.terminal = .mark .close) :
    (Derivation.further comma first further hcomma).tokens ++ rest ≠ rest' := by
  obtain ⟨token, htoken, hterminal⟩ := h
  rintro rfl
  cases htoken
  rw [hterminal] at hcomma
  cases hcomma

theorem stops_further (d : Derivation .further) (h : Symbol.further.Stops rest) :
    StopsAt 0 (d.tokens ++ rest) := by
  cases d with
  | further comma first rest' hcomma => exact stopsAt_of_none (by rw [hcomma]; rfl)
  | noFurther => exact stops_closing h

theorem parted_reference : (d : Derivation .reference) → d.Parted
  | .address token htoken => by
    refine .of_eq fun d' rest rest' heq _ _ => ?_
    cases d' with
    | address token' htoken' =>
      obtain ⟨rfl, rfl⟩ := List.cons.inj heq
      exact ⟨rfl, rfl⟩

/-- A colon after a reference makes a range of it. -/
theorem range_ne_single {first last reference : Derivation .reference} {colon : Token}
    {hcolon : colon.terminal = .mark .colon} (hrest' : StopsAt 8 rest') :
    (range first colon last hcolon).tokens ++ rest ≠ (single reference).tokens ++ rest' := by
  intro heq
  simp only [tokens, List.append_assoc, List.cons_append] at heq
  obtain ⟨-, rfl⟩ := (parted_reference first).unique heq trivial trivial
  exact not_stopsAt_of_level? (k := 8) (by rw [hcolon]; rfl) (Nat.le_refl _) hrest'

theorem parted_literal (token : Token) (htoken : token.terminal ∈ Terminal.literals) :
    (literal token htoken).Parted := by
  refine .of_eq fun d' rest rest' heq _ _ => ?_
  have hform := form?_eq heq
  cases d' with
  | literal token' htoken' =>
    obtain ⟨rfl, rfl⟩ := List.cons.inj heq
    exact ⟨rfl, rfl⟩
  | pass _ hl => exact absurd rfl hl
  | _ => cases hform

theorem parted_call (name opening : Token) (args : Derivation .arguments) (closing : Token)
    (hname : name.terminal = .name) (hopening : opening.terminal = .mark .open)
    (hclosing : closing.terminal = .mark .close) (ih : args.Parted) :
    (call name opening args closing hname hopening hclosing).Parted := by
  refine .of_eq fun d' rest rest' heq _ _ => ?_
  have hform := form?_eq heq
  cases d' with
  | call name' opening' args' closing' hname' hopening' hclosing' =>
    simp only [tokens, List.cons_append, List.append_assoc, List.cons.injEq] at heq
    obtain ⟨rfl, rfl, heq⟩ := heq
    obtain ⟨rfl, htail⟩ := ih.unique heq ⟨closing, rfl, hclosing⟩ ⟨closing', rfl, hclosing'⟩
    obtain ⟨rfl, rfl⟩ := List.cons.inj htail
    exact ⟨rfl, rfl⟩
  | pass _ hl => exact absurd rfl hl
  | _ => cases hform

theorem parted_range (first : Derivation .reference) (colon : Token) (last : Derivation .reference)
    (hcolon : colon.terminal = .mark .colon) : (range first colon last hcolon).Parted := by
  refine .of_eq fun d' rest rest' heq _ hrest' => ?_
  have hform := form?_eq heq
  cases d' with
  | range first' colon' last' hcolon' =>
    simp only [tokens, List.cons_append, List.append_assoc] at heq
    obtain ⟨rfl, htail⟩ := (parted_reference first).unique heq trivial trivial
    obtain ⟨rfl, hlast⟩ := List.cons.inj htail
    obtain ⟨rfl, rfl⟩ := (parted_reference last).unique hlast trivial trivial
    exact ⟨rfl, rfl⟩
  | single reference' => exact absurd heq (range_ne_single hrest')
  | pass _ hl => exact absurd rfl hl
  | _ => cases hform

theorem parted_single (reference : Derivation .reference) : (single reference).Parted := by
  refine .of_eq fun d' rest rest' heq hrest _ => ?_
  have hform := form?_eq heq
  cases d' with
  | single reference' =>
    obtain ⟨rfl, rfl⟩ := (parted_reference reference).unique heq trivial trivial
    exact ⟨rfl, rfl⟩
  | range first' colon' last' hcolon' => exact absurd heq.symm (range_ne_single hrest)
  | pass _ hl => exact absurd rfl hl
  | _ => cases hform

theorem parted_group (opening : Token) (body : Derivation (.layer .expression)) (closing : Token)
    (hopening : opening.terminal = .mark .open) (hclosing : closing.terminal = .mark .close)
    (ih : body.Parted) : (group opening body closing hopening hclosing).Parted := by
  refine .of_eq fun d' rest rest' heq _ _ => ?_
  have hform := form?_eq heq
  cases d' with
  | group opening' body' closing' hopening' hclosing' =>
    simp only [tokens, List.cons_append, List.append_assoc, List.cons.injEq] at heq
    obtain ⟨rfl, heq⟩ := heq
    obtain ⟨rfl, htail⟩ := ih.unique heq (stopsAt_of_none (by rw [hclosing]; rfl))
      (stopsAt_of_none (by rw [hclosing']; rfl))
    obtain ⟨rfl, rfl⟩ := List.cons.inj htail
    exact ⟨rfl, rfl⟩
  | pass _ hl => exact absurd rfl hl
  | _ => cases hform

theorem parted_arguments (first : Derivation (.layer .expression)) (further : Derivation .further)
    (ihf : first.Parted) (ihr : further.Parted) : (arguments first further).Parted := by
  refine .of_eq fun d' rest rest' heq hrest hrest' => ?_
  cases d' with
  | arguments first' further' =>
    simp only [tokens, List.append_assoc] at heq
    obtain ⟨rfl, htail⟩ := ihf.unique heq (stops_further further hrest)
      (stops_further further' hrest')
    obtain ⟨rfl, rfl⟩ := ihr.unique htail hrest hrest'
    exact ⟨rfl, rfl⟩
  | noArguments =>
    simp only [tokens, List.append_assoc, List.nil_append] at heq
    exact absurd heq (ne_closing hrest')

theorem parted_noArguments : noArguments.Parted := by
  refine .of_eq fun d' rest rest' heq hrest _ => ?_
  cases d' with
  | arguments first' further' =>
    simp only [tokens, List.append_assoc, List.nil_append] at heq
    exact absurd heq.symm (ne_closing hrest)
  | noArguments => exact ⟨rfl, heq⟩

theorem parted_further (comma : Token) (first : Derivation (.layer .expression))
    (further : Derivation .further) (hcomma : comma.terminal = .mark .comma) (ihf : first.Parted)
    (ihr : further.Parted) : (Derivation.further comma first further hcomma).Parted := by
  refine .of_eq fun d' rest rest' heq hrest hrest' => ?_
  cases d' with
  | further comma' first' further' hcomma' =>
    simp only [tokens, List.cons_append, List.append_assoc, List.cons.injEq] at heq
    obtain ⟨rfl, heq⟩ := heq
    obtain ⟨rfl, htail⟩ := ihf.unique heq (stops_further further hrest)
      (stops_further further' hrest')
    obtain ⟨rfl, rfl⟩ := ihr.unique htail hrest hrest'
    exact ⟨rfl, rfl⟩
  | noFurther => exact absurd heq (further_ne_closing hrest')

theorem parted_noFurther : noFurther.Parted := by
  refine .of_eq fun d' rest rest' heq hrest _ => ?_
  cases d' with
  | further comma' first' further' hcomma' => exact absurd heq.symm (further_ne_closing hrest)
  | noFurther => exact ⟨rfl, heq⟩

theorem parted_start (equal : Token) (body : Derivation (.layer .expression))
    (hequal : equal.terminal = .mark .equal) (ih : body.Parted) :
    (start equal body hequal).Parted := by
  refine .of_eq fun d' rest rest' heq hrest hrest' => ?_
  cases d' with
  | start equal' body' hequal' =>
    obtain ⟨rfl, hbody⟩ := List.cons.inj heq
    obtain ⟨rfl, rfl⟩ := ih.unique hbody hrest hrest'
    exact ⟨rfl, rfl⟩

theorem parted (d : Derivation s) : d.Parted := by
  induction d with
  | start equal body hequal ih => exact parted_start equal body hequal ih
  | pass inner hl ih => exact parted_pass inner hl ih
  | binary left op token right hop ihl ihr => exact parted_binary left op token right hop ihl ihr
  | sign op token inner htoken ih => exact parted_sign op token inner htoken ih
  | power left caret right hcaret ihl ihr => exact parted_power left caret right hcaret ihl ihr
  | percent inner token htoken ih => exact parted_percent inner token htoken ih
  | literal token htoken => exact parted_literal token htoken
  | call name opening args closing hname hopening hclosing ih =>
    exact parted_call name opening args closing hname hopening hclosing ih
  | range first colon last hcolon => exact parted_range first colon last hcolon
  | single reference => exact parted_single reference
  | group opening body closing hopening hclosing ih =>
    exact parted_group opening body closing hopening hclosing ih
  | address token htoken => exact parted_reference (.address token htoken)
  | arguments first further ihf ihr => exact parted_arguments first further ihf ihr
  | noArguments => exact parted_noArguments
  | further comma first further hcomma ihf ihr =>
    exact parted_further comma first further hcomma ihf ihr
  | noFurther => exact parted_noFurther

/-- A token sequence has at most one derivation from the start symbol. -/
theorem tokens_injective {d d' : Derivation .start} (h : d.tokens = d'.tokens) : d = d' := by
  have heq : d.tokens ++ [] = d'.tokens ++ [] := by rw [h]
  exact ((parted d).unique heq (stopsAt_nil 0) (stopsAt_nil 0)).1

end Derivation
end Spreadsheet.Formula
