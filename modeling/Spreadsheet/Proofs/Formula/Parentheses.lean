import Spreadsheet.Proofs.Formula.Scanning
import Spreadsheet.Proofs.Formula.Soundness

/-! Parentheses in canonical text. No text of a tree has fewer opening parentheses than the canonical
one: a derivation has a group wherever the canonical text has a pair of parentheses, since only a group
lets a phrase of a loose layer stand where a tight one is due. -/
namespace Spreadsheet.Formula

open Number (Numeral)

/-- How many parentheses a text opens, those inside of texts in quotation marks counted too. -/
def opened (cs : List Char) : Nat := cs.count '('

section

variable {cs : List Char}

theorem opened_append (cs ds : List Char) : opened (cs ++ ds) = opened cs + opened ds :=
  List.count_append

theorem opened_cons {c : Char} (h : c ≠ '(') (cs : List Char) : opened (c :: cs) = opened cs :=
  List.count_cons_of_ne h

theorem opened_open (cs : List Char) : opened ('(' :: cs) = opened cs + 1 := List.count_cons_self

theorem opened_eq_zero (h : '(' ∉ cs) : opened cs = 0 := List.count_eq_zero.mpr h

theorem opened_parenthesized (needed : Bool) (cs : List Char) :
    opened (parenthesized needed cs) = opened cs + needed.toNat := by
  unfold parenthesized
  cases needed with
  | true => simp [opened_open, opened_append, opened_cons]; rfl
  | false => rfl

/-- Where a looser phrase may stand, no more parentheses are needed. -/
theorem opened_parenthesized_mono {p j k : Nat} (h : j ≤ k) (cs : List Char) :
    opened (parenthesized (p < j) cs) ≤ opened (parenthesized (p < k) cs) := by
  rw [opened_parenthesized, opened_parenthesized]
  have himp : decide (p < j) → decide (p < k) := by simpa using fun hj => Nat.lt_of_lt_of_le hj h
  exact Nat.add_le_add_left (Bool.toNat_le_toNat himp) _

end

/-! ## Leaves -/

theorem opened_quotedText (cs : List Char) : opened (quotedText cs) = opened cs := by
  have hpairs : opened (cs.flatMap fun c => if c == '"' then ['"', '"'] else [c]) = opened cs := by
    induction cs with
    | nil => rfl
    | cons c cs ih =>
      rw [List.flatMap_cons, opened_append, ih]
      by_cases hc : c = '"'
      · subst hc
        simp [opened]
      · rw [if_neg (by simpa using hc), ← opened_append, List.singleton_append]
  unfold quotedText
  rw [opened_cons (by decide), opened_append, hpairs]
  rfl

theorem opened_unquoted_le (cs : List Char) : opened (Draft.unquoted cs) ≤ opened cs := by
  fun_induction Draft.unquoted cs with
  | case1 rest ih => simpa [opened_cons] using ih
  | case2 c rest _ ih =>
    rw [← List.singleton_append, ← List.singleton_append (l := rest), opened_append, opened_append]
    exact Nat.add_le_add_left ih _
  | case3 => exact Nat.le_refl _

theorem opened_digits {cs : List Char} (h : ∀ c ∈ cs, Text.isAsciiDigit c) : opened cs = 0 :=
  opened_eq_zero fun hmem => absurd (h _ hmem) (by decide)

theorem opened_address {a : Address} (h : a.Natural) : opened a.chars = 0 := by
  rw [h.chars_eq, opened_append, opened_digits fun _ => Number.isAsciiDigit_of_mem_natChars,
    Nat.add_zero]
  exact opened_eq_zero fun hmem => absurd (Address.isColumnLetter_of_mem_letters hmem) (by decide)

theorem opened_numeral (n : Numeral) : opened n.chars = 0 := by
  unfold Numeral.chars Numeral.fractionChars Numeral.exponentPart
  rw [opened_append, opened_digits n.isAsciiDigit_whole, opened_append]
  have hfraction : opened (if n.fraction = [] then [] else '.' :: n.fraction) = 0 := by
    split
    · rfl
    · rw [opened_cons (by decide), opened_digits n.isAsciiDigit_fraction]
  rw [hfraction]
  cases n.exponent with
  | none => rfl
  | some e =>
    obtain ⟨digits, hchars, -, hdigits, -⟩ := Numeral.exponentChars_eq e
    dsimp only
    rw [opened_cons (by decide), hchars, opened_cons (by split <;> decide), opened_digits hdigits]

theorem opened_number {n : Number} (h : n.Spellable) : opened n.chars = 0 := by
  match n, h with
  | .int i, ⟨hi, _⟩ =>
    obtain ⟨k, rfl⟩ := Int.eq_ofNat_of_zero_le hi
    have hchars : Number.chars (.int k) = (Numeral.ofNat k).chars :=
      (Number.toList_toString k).trans (Numeral.chars_ofNat k).symm
    exact hchars ▸ opened_numeral _
  | .float (.finite negative m), h =>
    obtain rfl : negative = false := h
    obtain ⟨k, hk, -⟩ := Number.Binary64.chars_finite m
    exact (congrArg opened hk).trans (opened_numeral k)
  | .float (.infinite _), h => exact h.elim
  | .float .nan, h => exact h.elim

theorem opened_readText_le (token : Token) :
    opened (constantChars (Draft.readText token)) ≤ opened token.chars := by
  have hsub : ((token.chars.drop 1).dropLast).Sublist token.chars :=
    (List.dropLast_sublist _).trans (List.drop_sublist _ _)
  calc opened (constantChars (Draft.readText token))
      = opened (Draft.unquoted (token.chars.drop 1).dropLast) := by
        change opened (quotedText (String.ofList _).toList) = _
        rw [opened_quotedText, String.toList_ofList]
    _ ≤ opened (token.chars.drop 1).dropLast := opened_unquoted_le _
    _ ≤ opened token.chars := hsub.count_le _

/-- A leaf is written with no more parentheses than it was read from. -/
theorem opened_leaf_le {token : Token} (hsound : token.Sound) {f : Formula}
    (h : Draft.readLeaf token = .ok f) : opened f.chars ≤ opened token.chars := by
  have hregular := (Draft.leaves_readLeaf hsound h).1
  cases Draft.readsAs_of_readLeaf h with
  | @number n _ _ =>
    have hzero : opened (constantChars (.number n)) = 0 :=
      opened_number (Leaves.constant_iff.mp hregular)
    rw [chars, hzero]
    exact Nat.zero_le _
  | text _ =>
    rw [chars]
    exact opened_readText_le token
  | bool _ =>
    rw [chars]
    cases hbool : decide (Text.upper token.chars = ['T', 'R', 'U', 'E']) <;>
      simp [Draft.readBool, hbool, constantChars, boolText, opened]
  | @errorCode kind _ _ =>
    rw [chars]
    cases kind <;> exact Nat.zero_le _
  | address _ =>
    rw [chars, opened_address (Leaves.cell_iff.mp hregular)]
    exact Nat.zero_le _

theorem precedence_leaf {token : Token} {f : Formula} (h : Draft.readLeaf token = .ok f) :
    f.precedence = 8 := by
  cases Draft.readsAs_of_readLeaf h <;> rfl

/-! ## Tokens -/

/-- The text of tokens without the blanks between them. -/
def spelled (ts : List Token) : List Char := ts.flatMap Token.chars

theorem opened_spelled_append (ts us : List Token) :
    opened (spelled (ts ++ us)) = opened (spelled ts) + opened (spelled us) := by
  unfold spelled
  rw [List.flatMap_append, opened_append]

theorem opened_spelled_cons (token : Token) (ts : List Token) :
    opened (spelled (token :: ts)) = opened token.chars + opened (spelled ts) := by
  unfold spelled
  rw [List.flatMap_cons, opened_append]

theorem opened_mark_open {token : Token} (hlexed : token.Lexed) (h : token.terminal = .mark .open) :
    opened token.chars = 1 := by
  rw [hlexed.mark h]
  decide

/-- A text opens the parentheses that its tokens open. -/
theorem Scanned.opened_eq {column : Nat} {before rest : List Char} {ts : List Token}
    (h : Scanned column before ts rest) : opened before = opened (spelled ts) := by
  induction h with
  | nil => rfl
  | @blank _ c _ _ _ hspacing _ ih =>
    have hc : c ≠ '(' := by
      rintro rfl
      exact absurd hspacing (by decide)
    rw [opened_cons hc, ih]
  | token _ _ ih => rw [opened_append, opened_spelled_cons, ih]

/-! ## Operators and calls -/

theorem opened_symbol (op : BinaryOp) : opened op.symbol.toList = 0 := by
  cases op <;> rfl

theorem opened_binary (op : BinaryOp) (x y : Formula) : opened (binary op x y).chars =
    opened (parenthesized (x.precedence < op.leftLevel) x.chars) +
      opened (parenthesized (y.precedence < op.rightLevel) y.chars) := by
  rw [chars, opened_append, opened_append, opened_cons (by decide), opened_cons (by decide),
    opened_symbol, Nat.add_zero]

theorem opened_unary (op : UnaryOp) (x : Formula) : opened (unary op x).chars =
    opened (parenthesized (x.precedence < op.level) x.chars) := by
  cases op with
  | percent => rw [chars, opened_append]; rfl
  | minus => rw [chars, opened_append, opened_eq_zero (by decide), Nat.zero_add]; decide
  | plus => rw [chars, opened_append, opened_eq_zero (by decide), Nat.zero_add]; decide

theorem opened_argumentChars_cons (x : Formula) (xs : List Formula) :
    opened (argumentChars (x :: xs)) = opened x.chars + opened (argumentChars xs) := by
  cases xs with
  | nil => rw [argumentChars, argumentChars]; rfl
  | cons y ys => rw [argumentChars, opened_append, opened_cons (by decide), opened_cons (by decide)]

theorem opened_call {name : String} (hname : IsCallName name) (xs : List Formula) :
    opened (call name xs).chars = opened (argumentChars xs) + 1 := by
  have hzero : opened name.toList = 0 :=
    opened_eq_zero fun hmem => absurd (hname.1.isNameRest _ hmem) (by decide)
  rw [chars, List.append_assoc, opened_append, hzero, Nat.zero_add, List.cons_append, opened_open,
    opened_append]
  rfl

theorem levels_of_operator? {l : Layer} {t : Terminal} {op : BinaryOp} (h : l.operator? t = some op) :
    op.leftLevel = l.level ∧ op.rightLevel = l.next.level := by
  unfold Layer.operator? at h
  split at h <;> cases h <;> exact ⟨rfl, rfl⟩

/-- A phrase of a layer that is as loose as the operator of its tree is written without parentheses. -/
theorem opened_of_level_le {f : Formula} {level : Nat} (h : level ≤ f.precedence) :
    opened (parenthesized (f.precedence < level) f.chars) = opened f.chars := by
  rw [decide_eq_false (Nat.not_lt.mpr h)]
  rfl

/-! ## Derivations -/

/-- In canonical text a phrase opens at most so many parentheses, those around it counted too. -/
def Symbol.OpensAtMost (n : Nat) : (s : Symbol) → s.Denotation Formula Address → Prop
  | .start, f => opened f.chars ≤ n
  | .layer l, f => opened (parenthesized (f.precedence < l.level) f.chars) ≤ n
  | .reference, a => opened a.chars ≤ n
  | .arguments, fs | .further, fs => opened (argumentChars fs) ≤ n

section

variable {l : Layer} {f : Formula} {n : Nat}

theorem Symbol.opensAtMost_layer : (Symbol.layer l).OpensAtMost n f ↔
    opened (parenthesized (f.precedence < l.level) f.chars) ≤ n := Iff.rfl

theorem Symbol.opensAtMost_expression :
    (Symbol.layer .expression).OpensAtMost n f ↔ opened f.chars ≤ n := by
  have hlevel : Layer.expression.level ≤ f.precedence := Nat.zero_le _
  rw [opensAtMost_layer, opened_of_level_le hlevel]

theorem opensAtMost_of_level_le (hlevel : l.level ≤ f.precedence) (h : opened f.chars ≤ n) :
    (Symbol.layer l).OpensAtMost n f := by
  rwa [Symbol.opensAtMost_layer, opened_of_level_le hlevel]

/-- Operands of a binary operator, each of the layer that the operator asks for. -/
theorem opensAtMost_binary {left right : Layer} {op : BinaryOp} {x y : Formula} {i j k : Nat}
    (hlevel : l.level ≤ op.precedence) (hleft : op.leftLevel = left.level)
    (hright : op.rightLevel = right.level) (hx : (Symbol.layer left).OpensAtMost i x)
    (hy : (Symbol.layer right).OpensAtMost j y) (hk : i + j ≤ k) :
    (Symbol.layer l).OpensAtMost k (Formula.binary op x y) := by
  refine opensAtMost_of_level_le hlevel ?_
  rw [Symbol.opensAtMost_layer] at hx hy
  rw [opened_binary, hleft, hright]
  omega

/-- A list of arguments with one more in front. -/
theorem opened_argumentChars_cons_le {x : Formula} {xs : List Formula} {i j k : Nat}
    (hx : (Symbol.layer .expression).OpensAtMost i x) (hxs : opened (argumentChars xs) ≤ j)
    (hk : i + j ≤ k) : opened (argumentChars (x :: xs)) ≤ k := by
  rw [opened_argumentChars_cons]
  exact (Nat.add_le_add (Symbol.opensAtMost_expression.mp hx) hxs).trans hk

end

/-- The tokens of a phrase open at least as many parentheses as its canonical text. -/
theorem Derivation.opensAtMost {s : Symbol} (d : Derivation s) (hlexed : ∀ token ∈ d.tokens, token.Lexed)
    {x : s.Denotation Formula Address} (hvalue : d.value = .ok x) :
    s.OpensAtMost (opened (spelled d.tokens)) x := by
  induction d with
  | start equal body hequal ih =>
    have hbody := Symbol.opensAtMost_expression.mp (ih (List.forall_mem_cons.mp hlexed).2 hvalue)
    rw [tokens, opened_spelled_cons]
    exact Nat.le_add_left_of_le hbody
  | pass inner hl ih =>
    have hinner : opened (parenthesized _ _) ≤ _ := ih hlexed hvalue
    exact Nat.le_trans (opened_parenthesized_mono (by rw [Layer.level_next hl]; omega) _) hinner
  | group opening body closing hopening hclosing ih =>
    obtain ⟨hfirst, hrest⟩ := List.forall_mem_cons.mp hlexed
    have hbody := Symbol.opensAtMost_expression.mp (ih (List.forall_mem_append.mp hrest).1 hvalue)
    rw [Symbol.opensAtMost_layer, opened_parenthesized, tokens, opened_spelled_cons,
      opened_mark_open hfirst hopening, opened_spelled_append]
    have hneeded := Bool.toNat_le (decide (x.precedence < Layer.operand.level))
    omega
  | binary left op token right hop ihl ihr =>
    obtain ⟨hleft, hright⟩ := List.forall_mem_append.mp hlexed
    obtain ⟨y, hy, hrest⟩ := bind_eq_ok.mp hvalue
    obtain ⟨z, hz, hx⟩ := bind_eq_ok.mp hrest
    cases hx
    obtain ⟨hleftLevel, hrightLevel⟩ := levels_of_operator? hop
    refine opensAtMost_binary (Layer.level_of_operator? hop).2.1.ge hleftLevel hrightLevel
      (ihl hleft hy) (ihr (List.forall_mem_cons.mp hright).2 hz) ?_
    rw [tokens, opened_spelled_append, opened_spelled_cons]
    omega
  | power left caret right hcaret ihl ihr =>
    obtain ⟨hleft, hright⟩ := List.forall_mem_append.mp hlexed
    obtain ⟨y, hy, hrest⟩ := bind_eq_ok.mp hvalue
    obtain ⟨z, hz, hx⟩ := bind_eq_ok.mp hrest
    cases hx
    refine opensAtMost_binary (by decide) rfl rfl (ihl hleft hy)
      (ihr (List.forall_mem_cons.mp hright).2 hz) ?_
    rw [tokens, opened_spelled_append, opened_spelled_cons]
    omega
  | sign op token inner hsign ih =>
    obtain ⟨y, hy, hx⟩ := bind_eq_ok.mp hvalue
    cases hx
    have hinner : opened (parenthesized _ _) ≤ _ := ih (List.forall_mem_cons.mp hlexed).2 hy
    have hlevel : op.level = 5 ∧ (Formula.unary op y).precedence = 5 := by
      unfold Terminal.sign? at hsign
      split at hsign <;> cases hsign <;> exact ⟨rfl, rfl⟩
    refine opensAtMost_of_level_le hlevel.2.ge ?_
    rw [opened_unary, hlevel.1, tokens, opened_spelled_cons]
    exact Nat.le_add_left_of_le hinner
  | percent inner token hpercent ih =>
    obtain ⟨y, hy, hx⟩ := bind_eq_ok.mp hvalue
    cases hx
    have hinner : opened (parenthesized _ _) ≤ _ := ih (List.forall_mem_append.mp hlexed).1 hy
    refine opensAtMost_of_level_le (Nat.le_refl 7) ?_
    rw [opened_unary, tokens, opened_spelled_append]
    exact Nat.le_add_right_of_le hinner
  | call name opening args closing hname hopening hclosing ih =>
    obtain ⟨hfirst, hrest⟩ := List.forall_mem_cons.mp hlexed
    obtain ⟨hsecond, hrest⟩ := List.forall_mem_cons.mp hrest
    obtain ⟨ys, hys, hx⟩ := bind_eq_ok.mp hvalue
    cases hx
    have hargs : opened (argumentChars ys) ≤ _ := ih (List.forall_mem_append.mp hrest).1 hys
    refine opensAtMost_of_level_le (Nat.le_refl 8) ?_
    rw [opened_call (isCallName_upper (hfirst.sound.name hname)), tokens, opened_spelled_cons,
      opened_spelled_cons, opened_mark_open hsecond hopening, opened_spelled_append]
    omega
  | literal token htoken =>
    have hsound := (hlexed token (List.mem_singleton_self _)).sound
    refine opensAtMost_of_level_le (precedence_leaf hvalue).ge ?_
    rw [tokens, opened_spelled_cons]
    exact Nat.le_add_right_of_le (opened_leaf_le hsound hvalue)
  | range first colon last hcolon ihf ihl =>
    obtain ⟨hfirst, hlast⟩ := List.forall_mem_append.mp hlexed
    obtain ⟨a, ha, hrest⟩ := bind_eq_ok.mp hvalue
    obtain ⟨b, hb, hx⟩ := bind_eq_ok.mp hrest
    cases hx
    have hleft : opened a.chars ≤ _ := ihf hfirst ha
    have hright : opened b.chars ≤ _ := ihl (List.forall_mem_cons.mp hlast).2 hb
    refine opensAtMost_of_level_le (Nat.le_refl 8) ?_
    rw [chars, opened_append, opened_cons (by decide), tokens, opened_spelled_append,
      opened_spelled_cons]
    omega
  | single reference ih =>
    obtain ⟨a, ha, hx⟩ := bind_eq_ok.mp hvalue
    cases hx
    have haddress : opened a.chars ≤ _ := ih hlexed ha
    refine opensAtMost_of_level_le (Nat.le_refl 8) ?_
    rwa [chars]
  | address token htoken =>
    have hzero : opened (Address.chars x) = 0 := opened_address (Draft.natural_of_readAddress hvalue)
    exact hzero.le.trans (Nat.zero_le _)
  | arguments first rest ihf ihr =>
    obtain ⟨hfirst, hrest⟩ := List.forall_mem_append.mp hlexed
    obtain ⟨y, hy, hmore⟩ := bind_eq_ok.mp hvalue
    obtain ⟨ys, hys, hx⟩ := bind_eq_ok.mp hmore
    cases hx
    refine opened_argumentChars_cons_le (ihf hfirst hy) (ihr hrest hys) ?_
    rw [tokens, opened_spelled_append]
  | noArguments =>
    cases hvalue
    exact Nat.zero_le _
  | further comma first rest hcomma ihf ihr =>
    obtain ⟨hfirst, hrest⟩ := List.forall_mem_append.mp (List.forall_mem_cons.mp hlexed).2
    obtain ⟨y, hy, hmore⟩ := bind_eq_ok.mp hvalue
    obtain ⟨ys, hys, hx⟩ := bind_eq_ok.mp hmore
    cases hx
    refine opened_argumentChars_cons_le (ihf hfirst hy) (ihr hrest hys) ?_
    rw [tokens, opened_spelled_cons, opened_spelled_append]
    exact Nat.le_add_left _ _
  | noFurther =>
    cases hvalue
    exact Nat.zero_le _

/-! ## Texts -/

theorem opened_trim_le (cs : List Char) : opened (Text.trim cs) ≤ opened cs :=
  ((Text.trim_prefix cs).sublist.trans (List.dropWhile_sublist _)).count_le _

/-- No text of a tree opens fewer parentheses than its canonical text. -/
theorem opened_text_le {s : String} {f : Formula} (h : parse s = .ok f) :
    opened f.text.toList ≤ opened s.toList := by
  obtain ⟨d, htokens, -, hvalue⟩ := exists_derivation_of_parse h
  have hscanned := tokensFrom_eq_some.mp htokens
  have hopens : opened f.chars ≤ _ := d.opensAtMost hscanned.lexes hvalue
  calc opened f.text.toList = opened f.chars := by
        rw [text, String.toList_ofList, opened_cons (by decide)]
    _ ≤ opened (spelled d.tokens) := hopens
    _ = opened (Text.trim s.toList) := hscanned.opened_eq.symm
    _ ≤ opened s.toList := opened_trim_le _

/-- Canonical text has no pair of parentheses to spare. With any one left out, be it around a phrase or
that of a call, the text is no longer one of the same tree. -/
theorem parse_without_pair {f : Formula} {before inside after : List Char}
    (htext : f.text.toList = before ++ '(' :: (inside ++ ')' :: after)) :
    parse (String.ofList (before ++ (inside ++ after))) ≠ .ok f := by
  intro hparse
  have hle := opened_text_le hparse
  rw [htext, String.toList_ofList] at hle
  simp only [opened_append, opened_open, opened_cons (show ')' ≠ '(' by decide)] at hle
  omega

/-- Without its parentheses `=(1 + 2) * 3` is no text of the same product. -/
theorem parse_without_pair_product :
    parse "=(1+2)*3" = .ok (binary .multiply (binary .add (constant (.number (.int 1)))
      (constant (.number (.int 2)))) (constant (.number (.int 3)))) ∧
    (binary .multiply (binary .add (constant (.number (.int 1))) (constant (.number (.int 2))))
      (constant (.number (.int 3)))).text.toList =
        ['='] ++ '(' :: ("1 + 2".toList ++ ')' :: " * 3".toList) ∧
    parse (String.ofList (['='] ++ ("1 + 2".toList ++ " * 3".toList))) ≠
      .ok (binary .multiply (binary .add (constant (.number (.int 1))) (constant (.number (.int 2))))
        (constant (.number (.int 3)))) := by
  have hparse : (parse "=(1+2)*3").toOption = some (binary .multiply (binary .add
      (constant (.number (.int 1))) (constant (.number (.int 2)))) (constant (.number (.int 3)))) := by
    decide +kernel
  have htext : (binary .multiply (binary .add (constant (.number (.int 1)))
      (constant (.number (.int 2)))) (constant (.number (.int 3)))).text.toList =
        ['='] ++ '(' :: ("1 + 2".toList ++ ')' :: " * 3".toList) := by
    decide +kernel
  exact ⟨eq_ok_of_toOption hparse, htext, parse_without_pair htext⟩

end Spreadsheet.Formula
