import Spreadsheet.Proofs.Formula.Spelling

/-! Canonical text reads back. The reader goes through the text of a tree from left to right, and leaves
the pending operators as they were but for those that the tree itself leaves open at its right end. -/
namespace Spreadsheet.Formula

open Number (Numeral)

/-! ## Reading on -/

/-- Reading goes on from a reader before `input` to one before `rest` for which `p` holds. -/
def Leads (r : Reader) (column : Nat) (input : List Char) (p : Reader → Prop) (rest : List Char) :
    Prop :=
  ∃ r' column', p r' ∧ ∀ text, readFrom text r column input = readFrom text r' column' rest

namespace Leads

variable {r r' : Reader} {column : Nat} {p q : Reader → Prop} {input middle rest cs : List Char}
  {t : Terminal}

theorem here (h : p r) : Leads r column input p input := ⟨r, column, h, fun _ => rfl⟩

theorem trans (h : Leads r column input p middle)
    (hrest : ∀ r' column', p r' → Leads r' column' middle q rest) : Leads r column input q rest := by
  obtain ⟨r', column', hp, hread⟩ := h
  obtain ⟨r'', column'', hq, hread'⟩ := hrest r' column' hp
  exact ⟨r'', column'', hq, fun text => (hread text).trans (hread' text)⟩

/-- A blank changes nothing. -/
theorem blank (h : ∀ column, Leads r column input p rest) : Leads r column (' ' :: input) p rest := by
  obtain ⟨r', column', hp, hread⟩ := h (nextColumn column ' ')
  refine ⟨r', column', hp, fun text => ?_⟩
  rw [← hread text, readFrom]
  rfl

/-- A token that the reader can take. -/
theorem token (hlexes : Terminal.Lexes r.focus.candidates t cs middle)
    (htake : r.take ⟨t, cs, column⟩ = .ok r') (h : ∀ column, Leads r' column middle p rest) :
    Leads r column (cs ++ middle) p rest := by
  obtain ⟨r'', column'', hp, hread⟩ := h (columnAfter column cs)
  refine ⟨r'', column'', hp, fun text => ?_⟩
  have hpos : t.extent (cs ++ middle) ≠ 0 := Terminal.extent_of_first? hlexes.first
  rw [← hread text]
  cases cs with
  | nil =>
    rw [hlexes.extent] at hpos
    contradiction
  | cons c cs =>
    have hspacing := hlexes.not_spacing c rfl
    have htaken : (c :: cs ++ middle).take (t.extent (c :: cs ++ middle)) = c :: cs := by
      rw [hlexes.extent, List.take_left]
    have hleft : (c :: cs ++ middle).drop (t.extent (c :: cs ++ middle)) = middle := by
      rw [hlexes.extent, List.drop_left]
    have hfirst := hlexes.first
    rw [List.cons_append] at hpos htaken hleft hfirst ⊢
    rw [readFrom, hspacing, if_neg Bool.false_ne_true, hfirst]
    dsimp only
    rw [if_neg hpos, htaken, htake, hleft]

end Leads

/-! ## Pending operators -/

/-- Whether a pending operator stays pending before an operator of this precedence. -/
def Frame.Yields (level : Nat) : Frame → Prop
  | .unary _ => False
  | .binary _ op => op.precedence < level
  | .group | .call .. => True

/-- An operand of this precedence may stand here without parentheses: an operator in it that completes
what is pending completes nothing from before the operand. Signs and what binds tighter complete
nothing at all. -/
def Open (level : Nat) (frames : List Frame) : Prop :=
  level ≤ 4 → ∀ frame ∈ frames.head?, frame.Yields level

theorem open_tight {level : Nat} (h : 4 < level) (frames : List Frame) : Open level frames :=
  fun hlow => by omega

theorem Open.mono {j k : Nat} {frames : List Frame} (h : Open j frames) (hjk : j ≤ k) :
    Open k frames := by
  intro hk frame hframe
  have hyields := h (by omega) frame hframe
  cases frame with
  | unary op => exact hyields
  | binary left op => exact Nat.lt_of_lt_of_le hyields hjk
  | group => trivial
  | call name arguments => trivial

theorem Open.reduce {level : Nat} {frames : List Frame} (h : Open level frames) (hlow : level ≤ 4)
    (draft : Draft) : reduce level frames draft = (frames, draft) := by
  cases frames with
  | nil => rfl
  | cons frame frames =>
    have hyields := h hlow frame rfl
    cases frame with
    | unary op => exact hyields.elim
    | binary left op =>
      rw [Formula.reduce, if_neg]
      exact Nat.not_le_of_lt hyields
    | group => rfl
    | call name arguments => rfl

/-- An operand was read from `frames` on. Operators of no more than `level` find what they would find
after the operand alone, and from the percent sign on the operand is complete. -/
def Reader.Holds (r : Reader) (frames : List Frame) (f : Formula) (level : Nat) : Prop :=
  ∃ last draft, r.focus.draft? = some last ∧ draft.Denotes f ∧
    (∀ l ≤ 4, l ≤ level → reduce l r.frames last = reduce l frames draft) ∧
    (7 ≤ level → r.frames = frames ∧ last = draft)

namespace Reader

theorem holds_complete {frames : List Frame} {focus : Focus} {draft : Draft} {f : Formula}
    (hfocus : focus.draft? = some draft) (hdraft : draft.Denotes f) (level : Nat) :
    Holds ⟨frames, focus⟩ frames f level :=
  ⟨draft, draft, hfocus, hdraft, fun _ _ _ => rfl, fun _ => ⟨rfl, rfl⟩⟩

theorem Holds.mono {r : Reader} {frames : List Frame} {f : Formula} {j k : Nat}
    (h : r.Holds frames f k) (hjk : j ≤ k) : r.Holds frames f j := by
  obtain ⟨last, draft, hfocus, hdraft, hreduce, htight⟩ := h
  exact ⟨last, draft, hfocus, hdraft, fun l hlow hl => hreduce l hlow (by omega),
    fun hj => htight (by omega)⟩

/-- After an operand the text is asked for what may follow one. -/
theorem lexes_of_draft {r : Reader} {last : Draft} (h : r.focus.draft? = some last) {t : Terminal}
    {cs rest : List Char} (hlexes : Terminal.Lexes Focus.operandFollowers t cs rest) :
    Terminal.Lexes r.focus.candidates t cs rest := by
  refine ⟨?_, hlexes.extent, hlexes.not_spacing⟩
  obtain ⟨frames, focus⟩ := r
  cases focus with
  | operand afterCall => contradiction
  | name name => contradiction
  | corner first => contradiction
  | reference token => exact Terminal.first?_append hlexes.first
  | range draft => exact Terminal.first?_append hlexes.first
  | complete draft => exact hlexes.first

theorem take_mark {r : Reader} {last : Draft} (h : r.focus.draft? = some last) {mark : Mark}
    (hmark : mark ≠ .colon) (cs : List Char) (column : Nat) :
    r.take ⟨.mark mark, cs, column⟩ = takeMark r.frames last ⟨.mark mark, cs, column⟩ mark := by
  obtain ⟨frames, focus⟩ := r
  cases focus with
  | operand afterCall => contradiction
  | name name => contradiction
  | corner first => contradiction
  | range draft => cases h; rfl
  | complete draft => cases h; rfl
  | reference token =>
    cases h
    cases mark
    case colon => exact absurd rfl hmark
    all_goals rfl

theorem takeMark_power (frames : List Frame) (draft : Draft) (token : Token) {mark : Mark}
    (h : binaryOp? mark = some .power) :
    takeMark frames draft token mark = .ok ⟨.binary draft .power :: frames, .operand false⟩ := by
  cases mark
  case caret => rfl
  all_goals contradiction

theorem takeMark_binary (frames : List Frame) (draft : Draft) (token : Token) {mark : Mark}
    {op : BinaryOp} (h : binaryOp? mark = some op) (hop : op ≠ .power) :
    takeMark frames draft token mark = .ok ⟨.binary (reduce op.precedence frames draft).2 op ::
      (reduce op.precedence frames draft).1, .operand false⟩ := by
  cases mark <;> cases h
  case caret.refl => exact absurd rfl hop
  all_goals rfl

end Reader

/-! ## Operands -/

/-- What may follow the text of an operand. -/
inductive Follows : List Char → Prop where
  | finish : Follows []
  | close (rest : List Char) : Follows (')' :: rest)
  | comma (rest : List Char) : Follows (',' :: rest)
  | percent (rest : List Char) : Follows ('%' :: rest)
  | binary (op : BinaryOp) (rest : List Char) : Follows (' ' :: (op.symbol.toList ++ ' ' :: rest))

theorem Follows.ends {rest : List Char} (h : Follows rest) : Terminal.Ends rest := by
  cases h with
  | finish => exact Terminal.ends_nil
  | _ => exact ⟨rfl, by simp⟩

/-- The text of a tree is read as the tree wherever it may stand without parentheses. -/
def Reads (f : Formula) : Prop :=
  ∀ frames flag column rest, Open f.precedence frames → Follows rest →
    Leads ⟨frames, .operand flag⟩ column (f.chars ++ rest) (·.Holds frames f f.precedence) rest

section

variable {frames : List Frame} {flag : Bool} {column : Nat} {rest cs : List Char}

theorem lexes_operand {t : Terminal} (flag : Bool) (h : Terminal.Lexes Focus.operandStarts t cs rest) :
    Terminal.Lexes (Focus.operand flag).candidates t cs rest := by
  cases flag with
  | false => exact h
  | true => exact ⟨Terminal.first?_append h.first, h.extent, h.not_spacing⟩

theorem Terminal.Lexes.ne_close {t : Terminal} (h : Terminal.Lexes Focus.operandStarts t cs rest) :
    t ≠ .mark .close := by
  have hmem : t ∈ Focus.operandStarts := List.mem_of_find?_eq_some h.first
  rintro rfl
  exact absurd hmem (by decide)

/-- Where an operand is due, a token that starts one is taken as such. -/
theorem take_operand {token : Token} (h : token.terminal ≠ .mark .close) :
    Reader.take ⟨frames, .operand flag⟩ token = .ok (Reader.takeOperand frames token) := by
  obtain ⟨terminal, cs, column⟩ := token
  cases flag with
  | false => rfl
  | true =>
    cases terminal with
    | mark mark =>
      cases mark
      case close => exact absurd rfl h
      all_goals rfl
    | _ => rfl

theorem leads_operand {t : Terminal} {r : Reader} {p : Reader → Prop} {middle : List Char}
    (hlexes : Terminal.Lexes Focus.operandStarts t cs middle)
    (htake : Reader.takeOperand frames ⟨t, cs, column⟩ = r)
    (h : ∀ column, Leads r column middle p rest) :
    Leads ⟨frames, .operand flag⟩ column (cs ++ middle) p rest :=
  .token (lexes_operand flag hlexes) ((take_operand hlexes.ne_close).trans (congrArg _ htake)) h

theorem leads_mark {r r' : Reader} {last : Draft} {mark : Mark} {p : Reader → Prop}
    {middle : List Char} (hlast : r.focus.draft? = some last)
    (hlexes : Terminal.Lexes Focus.operandFollowers (.mark mark) cs middle)
    (htake : ∀ token, Reader.takeMark r.frames last token mark = .ok r')
    (h : ∀ column, Leads r' column middle p rest) : Leads r column (cs ++ middle) p rest := by
  have hcolon : mark ≠ .colon := by
    have hmem : Terminal.mark mark ∈ Focus.operandFollowers := List.mem_of_find?_eq_some hlexes.first
    rintro rfl
    exact absurd hmem (by decide)
  exact .token (Reader.lexes_of_draft hlast hlexes)
    ((Reader.take_mark hlast hcolon cs column).trans (htake _)) h

/-- A leaf of one token. -/
theorem reads_leaf {f : Formula} {t : Terminal} (focus : Token → Focus) (hchars : f.chars = cs)
    (hheight : f.height = 1)
    (hlexes : ∀ rest, Terminal.Ends rest → Terminal.Lexes Focus.operandStarts t cs rest)
    (htake : ∀ frames column, Reader.takeOperand frames ⟨t, cs, column⟩ =
      ⟨frames, focus ⟨t, cs, column⟩⟩)
    (hfocus : ∀ token, (focus token).draft? = some (.leaf token))
    (hread : ∀ column, Draft.readLeaf ⟨t, cs, column⟩ = .ok f) : Reads f := by
  intro frames flag column rest _ hrest
  rw [hchars]
  exact leads_operand (hlexes rest hrest.ends) (htake frames column) fun _ =>
    .here (Reader.holds_complete (hfocus _) (Draft.denotes_leaf (hread column) hheight) _)

theorem chars_constant (v : Value) : (constant v).chars = constantChars v := by
  rw [chars]

theorem reads_constant {v : Value} (h : v.Spellable) : Reads (.constant v) := by
  have hheight : (constant v).height = 1 := by rw [height]
  match v, h with
  | .number (.int i), ⟨hi, hwritable⟩ =>
    obtain ⟨n, rfl⟩ := Int.eq_ofNat_of_zero_le hi
    refine reads_leaf (fun token => .complete (.leaf token))
      ((chars_constant _).trans (Number.toList_toString n)) hheight (fun rest hrest => ?_)
      (fun _ _ => rfl) (fun _ => rfl) (Draft.readLeaf_natChars hwritable)
    rw [← Numeral.chars_ofNat]
    exact Terminal.lexes_number _ hrest
  | .number (.float (.finite negative m)), h =>
    obtain rfl : negative = false := h
    obtain ⟨n, hn, hmark, hvalue, -⟩ := Number.Binary64.chars_finite m
    exact reads_leaf (fun token => .complete (.leaf token)) ((chars_constant _).trans hn) hheight
      (fun _ => Terminal.lexes_number n) (fun _ _ => rfl) (fun _ => rfl)
      (Draft.readLeaf_numeral n hmark hvalue)
  | .number (.float (.infinite _)), h => exact h.elim
  | .number (.float .nan), h => exact h.elim
  | .text s, _ =>
    exact reads_leaf (fun token => .complete (.leaf token)) (chars_constant _) hheight
      (fun _ => Terminal.lexes_text s.toList) (fun _ _ => rfl) (fun _ => rfl)
      (Draft.readLeaf_quotedText s)
  | .bool b, _ =>
    exact reads_leaf (fun token => .complete (.leaf token)) (chars_constant _) hheight
      (fun _ => Terminal.lexes_bool b) (fun _ _ => rfl) (fun _ => rfl) (Draft.readLeaf_boolText b)
  | .error kind, _ =>
    exact reads_leaf (fun token => .complete (.leaf token)) (chars_constant _) hheight
      (fun rest _ => Terminal.lexes_errorCode kind rest) (fun _ _ => rfl) (fun _ => rfl)
      (Draft.readLeaf_code kind)

theorem reads_cell {a : Address} (h : a.Spellable) : Reads (.cell a) :=
  reads_leaf .reference (by rw [chars]) (by rw [height])
    (fun _ hrest => (Terminal.lexes_address h hrest).1) (fun _ _ => rfl) (fun _ => rfl)
    (Draft.readLeaf_address h)

theorem reads_range {a b : Address} (ha : a.Spellable) (hb : b.Spellable) : Reads (.range a b) := by
  intro frames flag column rest _ hrest
  have hcolon : Terminal.Ends (':' :: (b.chars ++ rest)) := ⟨rfl, by simp⟩
  have hchars : (Formula.range a b).chars ++ rest = a.chars ++ ([':'] ++ (b.chars ++ rest)) := by
    simp [Formula.chars]
  rw [hchars]
  refine leads_operand (Terminal.lexes_address ha hcolon).1 rfl fun column' => ?_
  refine .token (Terminal.lexes_colon _) rfl fun column'' => ?_
  refine .token (Terminal.lexes_address hb hrest.ends).2 rfl fun _ => ?_
  have hrange := Draft.denotes_range (Draft.readAddress_chars ha column)
    (Draft.readAddress_chars hb column'')
  exact .here (Reader.holds_complete rfl hrange _)

/-! ## Operators -/

/-- A tree between parentheses is complete at the closing one. -/
theorem leads_parenthesized {f : Formula} (hf : Reads f) :
    Leads ⟨frames, .operand flag⟩ column ('(' :: (f.chars ++ [')']) ++ rest)
      (·.Holds frames f 8) rest := by
  have hchars : '(' :: (f.chars ++ [')']) ++ rest = ['('] ++ (f.chars ++ ([')'] ++ rest)) := by simp
  rw [hchars]
  refine leads_operand (Terminal.lexes_open _) rfl fun column' => ?_
  have hopen : Open f.precedence (.group :: frames) := fun _ frame hframe => by cases hframe; trivial
  refine (hf _ false column' _ hopen (.close rest)).trans fun r column'' hr => ?_
  obtain ⟨last, draft, hlast, hdraft, hreduce, -⟩ := hr
  have hgroup : reduce 0 r.frames last = (.group :: frames, draft) :=
    hreduce 0 (Nat.zero_le _) (Nat.zero_le _)
  have htake : ∀ token, Reader.takeMark r.frames last token .close =
      .ok ⟨frames, .complete draft⟩ := by
    intro token
    unfold Reader.takeMark
    dsimp only
    rw [hgroup]
  exact leads_mark hlast (Terminal.lexes_close rest) htake fun _ =>
    .here (Reader.holds_complete rfl hdraft _)

/-- An operand of an operator that asks for at least `level`. -/
theorem leads_operator_operand {f : Formula} (hf : Reads f) {level : Nat} (hlevel : level ≤ 8)
    (hopen : Open level frames) (hrest : Follows rest) :
    Leads ⟨frames, .operand flag⟩ column (parenthesized (f.precedence < level) f.chars ++ rest)
      (·.Holds frames f level) rest := by
  unfold parenthesized
  by_cases hneeded : f.precedence < level
  · rw [if_pos (decide_eq_true hneeded)]
    exact (leads_parenthesized hf).trans fun _ _ hr => .here (hr.mono hlevel)
  · rw [if_neg (by simpa using hneeded)]
    have hle : level ≤ f.precedence := Nat.le_of_not_lt hneeded
    exact (hf _ flag column _ (hopen.mono hle) hrest).trans fun _ _ hr => .here (hr.mono hle)

theorem reads_sign {op : UnaryOp} {x : Formula} (hop : op ≠ .percent) (hx : Reads x) :
    Reads (.unary op x) := by
  intro frames flag column rest _ hrest
  have hprecedence : (unary op x).precedence = 5 := by
    cases op
    case percent => contradiction
    all_goals rfl
  have hchars : (unary op x).chars ++ rest =
      op.symbol.toList ++ (parenthesized (x.precedence < 5) x.chars ++ rest) := by
    cases op with
    | percent => contradiction
    | minus => rw [chars, List.append_assoc]; rfl; exact hop
    | plus => rw [chars, List.append_assoc]; rfl; exact hop
  have hoperand : ∀ column, Leads ⟨.unary op :: frames, .operand false⟩ column
      (parenthesized (x.precedence < 5) x.chars ++ rest) (·.Holds frames (.unary op x) 5) rest := by
    intro column
    refine (leads_operator_operand hx (by omega) (open_tight (by omega) _) hrest).trans
      fun r _ hr => .here ?_
    obtain ⟨last, draft, hlast, hdraft, hreduce, -⟩ := hr
    exact ⟨last, .unary op draft, hlast, hdraft.unary op, hreduce, fun h => by omega⟩
  rw [hchars, hprecedence]
  cases op with
  | percent => contradiction
  | minus => exact leads_operand (Terminal.lexes_minus _) rfl hoperand
  | plus => exact leads_operand (Terminal.lexes_plus _) rfl hoperand

theorem reads_percent {x : Formula} (hx : Reads x) : Reads (.unary .percent x) := by
  intro frames flag column rest _ hrest
  have hchars : (unary .percent x).chars ++ rest =
      parenthesized (x.precedence < 7) x.chars ++ (['%'] ++ rest) := by
    rw [chars, List.append_assoc]
    rfl
  rw [hchars]
  refine (leads_operator_operand hx (by omega) (open_tight (by omega) _)
    (.percent rest)).trans fun r _ hr => ?_
  obtain ⟨last, draft, hlast, hdraft, -, htight⟩ := hr
  obtain ⟨hframes, rfl⟩ := htight (Nat.le_refl 7)
  exact leads_mark hlast (Terminal.lexes_percent rest) (fun _ => rfl) fun _ =>
    .here (hframes ▸ Reader.holds_complete rfl (hdraft.unary .percent) _)

/-- Operands of equal precedence need parentheses on the right; powers group the other way, and a sign
may stand to their right. -/
theorem level_bounds (op : BinaryOp) : op.leftLevel ≤ 8 ∧ op.precedence ≤ op.leftLevel ∧
    op.rightLevel ≤ 8 ∧ min 4 op.precedence ≤ op.rightLevel ∧
      (op.rightLevel ≤ 4 → op.precedence < op.rightLevel) := by
  cases op <;> decide

theorem chars_binary_append (op : BinaryOp) (x y : Formula) (rest : List Char) :
    (binary op x y).chars ++ rest = parenthesized (x.precedence < op.leftLevel) x.chars ++
      ' ' :: (op.symbol.toList ++
        ' ' :: (parenthesized (y.precedence < op.rightLevel) y.chars ++ rest)) := by
  rw [chars]
  simp

theorem open_right {op : BinaryOp} (left : Draft) (frames : List Frame) :
    Open op.rightLevel (.binary left op :: frames) := by
  intro hlow frame hframe
  cases hframe
  exact (level_bounds op).2.2.2.2 hlow

/-- A left operand and its operator: what was pending still is. -/
theorem leads_left {op : BinaryOp} {x : Formula} (hx : Reads x) (hopen : Open op.precedence frames) :
    Leads ⟨frames, .operand flag⟩ column (parenthesized (x.precedence < op.leftLevel) x.chars ++
        ' ' :: (op.symbol.toList ++ ' ' :: rest))
      (fun r => ∃ left, left.Denotes x ∧ r = ⟨.binary left op :: frames, .operand false⟩) rest := by
  obtain ⟨hleft, hprecedence, -⟩ := level_bounds op
  refine (leads_operator_operand hx hleft (hopen.mono hprecedence) (.binary op rest)).trans
    fun r _ hr => ?_
  obtain ⟨last, left, hlast, hdraft, hreduce, htight⟩ := hr
  obtain ⟨mark, hmark, hlexes⟩ := Terminal.lexes_binary op rest
  have htake : ∀ token, Reader.takeMark r.frames last token mark =
      .ok ⟨.binary left op :: frames, .operand false⟩ := by
    intro token
    by_cases hpower : op = .power
    · subst hpower
      obtain ⟨hframes, rfl⟩ := htight (Nat.le_refl 7)
      rw [Reader.takeMark_power _ _ _ hmark, hframes]
    · have hlow : op.precedence ≤ 4 := by cases op <;> simp_all [BinaryOp.precedence]
      rw [Reader.takeMark_binary _ _ _ hmark hpower, hreduce _ hlow hprecedence, hopen.reduce hlow]
  exact .blank fun _ => leads_mark hlast hlexes htake fun _ => .blank fun _ =>
    .here ⟨left, hdraft, rfl⟩

theorem reads_binary {op : BinaryOp} {x y : Formula} (hx : Reads x) (hy : Reads y) :
    Reads (.binary op x y) := by
  intro frames flag column rest hopen hrest
  obtain ⟨-, -, hright, hbound, -⟩ := level_bounds op
  rw [chars_binary_append]
  refine (leads_left hx hopen).trans fun r _ hr => ?_
  obtain ⟨left, hleft, rfl⟩ := hr
  refine (leads_operator_operand hy hright (open_right left frames) hrest).trans
    fun r _ hr => .here ?_
  obtain ⟨last, right, hlast, hdraft, hreduce, -⟩ := hr
  have htop : op.precedence < 7 := by cases op <;> decide
  refine ⟨last, .binary op left right, hlast, hleft.binary hdraft op, fun l hlow hl => ?_,
    fun h => absurd h (Nat.not_le_of_lt htop)⟩
  have hl : l ≤ op.precedence := hl
  rw [hreduce l hlow (by omega), reduce, if_pos hl]

/-! ## Calls -/

theorem open_call (level : Nat) (name : Token) (arguments : List Draft) (frames : List Frame) :
    Open level (.call name arguments :: frames) :=
  fun _ frame hframe => by cases hframe; trivial

theorem chars_arguments_append (x y : Formula) (ys : List Formula) (rest : List Char) :
    argumentChars (x :: y :: ys) ++ rest =
      x.chars ++ ([','] ++ ' ' :: (argumentChars (y :: ys) ++ rest)) := by
  rw [argumentChars]
  simp

/-- An argument with the comma after it. -/
theorem leads_argument {x : Formula} (hx : Reads x) {name : Token} {arguments : List Draft} :
    Leads ⟨.call name arguments :: frames, .operand flag⟩ column (x.chars ++ ([','] ++ ' ' :: rest))
      (fun r => ∃ draft, draft.Denotes x ∧
        r = ⟨.call name (draft :: arguments) :: frames, .operand false⟩) rest := by
  refine (hx _ flag column _ (open_call _ name arguments frames) (.comma _)).trans fun r _ hr => ?_
  obtain ⟨last, draft, hlast, hdraft, hreduce, -⟩ := hr
  have hcall := hreduce 0 (Nat.zero_le _) (Nat.zero_le _)
  have htake : ∀ token, Reader.takeMark r.frames last token .comma =
      .ok ⟨.call name (draft :: arguments) :: frames, .operand false⟩ := by
    intro token
    unfold Reader.takeMark
    dsimp only
    rw [hcall]
    rfl
  exact leads_mark hlast (Terminal.lexes_comma _) htake fun _ => .blank fun _ =>
    .here ⟨draft, hdraft, rfl⟩

/-- The arguments that are left of a call, up to its closing parenthesis. -/
theorem leads_arguments {x : Formula} {xs : List Formula} (hx : Reads x) (hxs : ∀ y ∈ xs, Reads y)
    {name : Token} {arguments : List Draft} :
    Leads ⟨.call name arguments :: frames, .operand flag⟩ column
      (argumentChars (x :: xs) ++ ')' :: rest)
      (fun r => ∃ drafts, Draft.DenotesAll drafts (x :: xs) ∧
        r = ⟨frames, .complete (.call name (arguments.reverse ++ drafts))⟩) rest := by
  induction xs generalizing x flag column arguments with
  | nil =>
    rw [argumentChars]
    refine (hx _ flag column _ (open_call _ name arguments frames) (.close rest)).trans
      fun r _ hr => ?_
    obtain ⟨last, draft, hlast, hdraft, hreduce, -⟩ := hr
    have hcall := hreduce 0 (Nat.zero_le _) (Nat.zero_le _)
    have htake : ∀ token, Reader.takeMark r.frames last token .close =
        .ok ⟨frames, .complete (.call name (arguments.reverse ++ [draft]))⟩ := by
      intro token
      unfold Reader.takeMark
      dsimp only
      rw [hcall, ← List.reverse_cons]
      rfl
    exact leads_mark hlast (Terminal.lexes_close rest) htake fun _ =>
      .here ⟨[draft], hdraft.cons Draft.denotesAll_nil, rfl⟩
  | cons y ys ih =>
    rw [chars_arguments_append]
    refine (leads_argument hx).trans fun r _ hr => ?_
    obtain ⟨draft, hdraft, rfl⟩ := hr
    refine (ih (hxs y List.mem_cons_self) fun z hz => hxs z (List.mem_cons_of_mem y hz)).trans
      fun r _ hr => .here ?_
    obtain ⟨drafts, hdrafts, rfl⟩ := hr
    exact ⟨draft :: drafts, hdraft.cons hdrafts, by simp⟩

theorem chars_call_append (name : String) (xs : List Formula) (rest : List Char) :
    (call name xs).chars ++ rest = name.toList ++ (['('] ++ (argumentChars xs ++ ')' :: rest)) := by
  rw [chars]
  simp

/-- The name of a call and its opening parenthesis. -/
theorem leads_name {name : String} (hname : IsCallName name) :
    Leads ⟨frames, .operand flag⟩ column (name.toList ++ (['('] ++ rest))
      (fun r => ∃ token, token.chars = name.toList ∧ r = ⟨.call token [] :: frames, .operand true⟩)
      rest := by
  refine leads_operand (Terminal.lexes_name hname.1 _) rfl fun _ => ?_
  exact .token ⟨rfl, rfl, by decide⟩ rfl fun _ => .here ⟨_, rfl, rfl⟩

theorem reads_call {name : String} {xs : List Formula} (hname : IsCallName name)
    (hxs : ∀ x ∈ xs, Reads x) : Reads (.call name xs) := by
  intro frames flag column rest _ hrest
  rw [chars_call_append]
  refine (leads_name hname).trans fun r _ hr => ?_
  obtain ⟨token, htoken, rfl⟩ := hr
  have hupper : Text.upper token.chars = name.toList := by rw [htoken, hname.2]
  cases xs with
  | nil =>
    have hempty : argumentChars [] ++ ')' :: rest = [')'] ++ rest := by
      rw [argumentChars]
      rfl
    rw [hempty]
    refine .token (Terminal.lexes_close_after_call rest) rfl fun _ => ?_
    exact .here (Reader.holds_complete rfl (Draft.denotesAll_nil.call hupper) _)
  | cons x xs =>
    refine (leads_arguments (hxs x List.mem_cons_self)
      fun y hy => hxs y (List.mem_cons_of_mem x hy)).trans fun r _ hr => .here ?_
    obtain ⟨drafts, hdrafts, rfl⟩ := hr
    exact Reader.holds_complete rfl (hdrafts.call hupper) _

end

mutual

theorem Spellable.reads {f : Formula} (h : f.Spellable) : Reads f := by
  match f with
  | .constant v => exact reads_constant (Leaves.constant_iff.mp h)
  | .cell a => exact reads_cell (Leaves.cell_iff.mp h)
  | .range a b => exact reads_range (Leaves.range_iff.mp h).1 (Leaves.range_iff.mp h).2
  | .unary .percent x => exact reads_percent (Spellable.reads (Leaves.unary_iff.mp h))
  | .unary .minus x => exact reads_sign (by decide) (Spellable.reads (Leaves.unary_iff.mp h))
  | .unary .plus x => exact reads_sign (by decide) (Spellable.reads (Leaves.unary_iff.mp h))
  | .binary op x y =>
    obtain ⟨hx, hy⟩ := Leaves.binary_iff.mp h
    exact reads_binary (Spellable.reads hx) (Spellable.reads hy)
  | .call name xs =>
    obtain ⟨hname, hxs⟩ := Leaves.call_iff.mp h
    exact reads_call hname (reads_of_all hxs)

theorem reads_of_all {fs : List Formula} (h : LeavesOfAll Reference.Spellable fs) :
    ∀ f ∈ fs, Reads f := by
  match fs with
  | [] => exact fun f hf => absurd hf List.not_mem_nil
  | x :: xs =>
    obtain ⟨hx, hxs⟩ := leavesOfAll_cons_iff.mp h
    exact List.forall_mem_cons.mpr ⟨Spellable.reads hx, reads_of_all hxs⟩

end

/-! ## The whole text -/

/-- A text that ends in a visible character. -/
def EndsVisibly (cs : List Char) : Prop := ∃ init last, cs = init ++ [last] ∧ Text.isBlank last = false

theorem endsVisibly_of_forall {cs : List Char} (hne : cs ≠ []) (h : ∀ c ∈ cs, Text.isBlank c = false) :
    EndsVisibly cs :=
  ⟨cs.dropLast, cs.getLast hne, (List.dropLast_concat_getLast hne).symm, h _ (List.getLast_mem hne)⟩

theorem endsVisibly_concat {c : Char} (h : Text.isBlank c = false) (cs : List Char) :
    EndsVisibly (cs ++ [c]) := ⟨cs, c, rfl, h⟩

theorem EndsVisibly.append {cs : List Char} (h : EndsVisibly cs) (ds : List Char) :
    EndsVisibly (ds ++ cs) := by
  obtain ⟨init, last, rfl, hlast⟩ := h
  exact ⟨ds ++ init, last, (List.append_assoc ds init [last]).symm, hlast⟩

theorem EndsVisibly.parenthesized {cs : List Char} (h : EndsVisibly cs) (needed : Bool) :
    EndsVisibly (parenthesized needed cs) := by
  unfold Formula.parenthesized
  split
  · exact (endsVisibly_concat (by decide) cs).append ['(']
  · exact h

theorem endsVisibly_digits {cs : List Char} (hne : cs ≠ []) (h : ∀ c ∈ cs, Text.isAsciiDigit c) :
    EndsVisibly cs :=
  endsVisibly_of_forall hne fun c hc => Address.isAsciiDigit_not_blank (h c hc)

theorem endsVisibly_numeral (n : Numeral) : EndsVisibly n.chars := by
  have hwhole := endsVisibly_digits n.whole_ne_nil n.isAsciiDigit_whole
  unfold Numeral.chars Numeral.fractionChars Numeral.exponentPart
  cases n.exponent with
  | some e =>
    obtain ⟨digits, hchars, hne, hdigits, -⟩ := Numeral.exponentChars_eq e
    dsimp only
    rw [hchars]
    exact (((endsVisibly_digits hne hdigits).append ['e', if e < 0 then '-' else '+']).append _).append _
  | none =>
    dsimp only
    rw [List.append_nil]
    split
    · rw [List.append_nil]
      exact hwhole
    · rename_i hfraction
      exact ((endsVisibly_digits hfraction n.isAsciiDigit_fraction).append ['.']).append _

theorem endsVisibly_constant {v : Value} (h : v.Spellable) : EndsVisibly (constantChars v) := by
  match v, h with
  | .number (.int i), ⟨hi, _⟩ =>
    obtain ⟨n, rfl⟩ := Int.eq_ofNat_of_zero_le hi
    have hchars : constantChars (.number (.int n)) = (Numeral.ofNat n).chars :=
      (Number.toList_toString n).trans (Numeral.chars_ofNat n).symm
    exact hchars ▸ endsVisibly_numeral _
  | .number (.float (.finite negative m)), h =>
    obtain rfl : negative = false := h
    obtain ⟨n, hn, -⟩ := Number.Binary64.chars_finite m
    have hchars : constantChars (.number (.float (.finite false m))) = n.chars := hn
    exact hchars ▸ endsVisibly_numeral n
  | .number (.float (.infinite _)), h => exact h.elim
  | .number (.float .nan), h => exact h.elim
  | .text s, _ => exact (endsVisibly_concat (by decide) _).append ['"']
  | .bool true, _ => exact endsVisibly_of_forall (by decide) (by decide)
  | .bool false, _ => exact endsVisibly_of_forall (by decide) (by decide)
  | .error kind, _ =>
    change EndsVisibly kind.code.toList
    cases kind <;> exact endsVisibly_of_forall (by decide) (by decide)

theorem endsVisibly_address {a : Address} (h : a.Natural) : EndsVisibly a.chars := by
  rw [h.chars_eq]
  exact (endsVisibly_digits (Number.natChars_ne_nil _)
    fun _ => Number.isAsciiDigit_of_mem_natChars).append _

theorem Regular.endsVisibly {f : Formula} (h : f.Regular) : EndsVisibly f.chars := by
  match f with
  | .constant v =>
    rw [chars]
    exact endsVisibly_constant (Leaves.constant_iff.mp h)
  | .cell a =>
    rw [chars]
    exact endsVisibly_address (Leaves.cell_iff.mp h)
  | .range a b =>
    rw [chars]
    exact ((endsVisibly_address (Leaves.range_iff.mp h).2).append [':']).append _
  | .unary .percent x =>
    rw [chars]
    exact endsVisibly_concat (by decide) _
  | .unary .minus x =>
    rw [chars]
    · exact ((Regular.endsVisibly (Leaves.unary_iff.mp h)).parenthesized _).append _
    · decide
  | .unary .plus x =>
    rw [chars]
    · exact ((Regular.endsVisibly (Leaves.unary_iff.mp h)).parenthesized _).append _
    · decide
  | .binary op x y =>
    rw [chars]
    have hy := Regular.endsVisibly (Leaves.binary_iff.mp h).2
    exact ((hy.parenthesized _).append [' ']).append _
  | .call name xs =>
    rw [chars]
    exact endsVisibly_concat (by decide) _

/-- Reading a text starts after its equal sign. -/
theorem Regular.draft?_text_eq {f : Formula} (h : f.Regular) :
    draft? f.text = readFrom ('=' :: f.chars) .start 2 f.chars := by
  obtain ⟨init, last, hchars, hlast⟩ := Regular.endsVisibly h
  have htrim : Text.trim f.text.toList = '=' :: f.chars := by
    unfold text
    rw [String.toList_ofList]
    apply Text.trim_eq_self (Text.stops_cons.mpr (by decide))
    rw [hchars, ← List.cons_append, List.reverse_append]
    exact Text.stops_cons.mpr hlast
  unfold draft?
  rw [htrim]
  rfl

/-- The text of a tree is read, as a draft of the tree. -/
theorem Spellable.draft?_text {f : Formula} (h : f.Spellable) :
    ∃ draft, draft? f.text = .ok draft ∧ draft.Denotes f := by
  obtain ⟨r, column, hr, hread⟩ := Spellable.reads h [] false 2 [] (fun _ _ h => by cases h) .finish
  obtain ⟨last, draft, hlast, hdraft, hreduce, -⟩ := hr
  refine ⟨draft, ?_, hdraft⟩
  have hfinish : r.finish ('=' :: f.chars).length = .ok draft := by
    have hdone := hreduce 0 (Nat.zero_le _) (Nat.zero_le _)
    unfold Reader.finish
    rw [hlast]
    dsimp only
    rw [hdone]
    rfl
  have hstart := hread ('=' :: f.chars)
  rw [List.append_nil] at hstart
  rw [Regular.draft?_text_eq h.regular, Reader.start, hstart, readFrom, hfinish]

/-- The text of a tree reads back as the tree, with the same constants, if text can spell its leaves and
it has no more levels than a formula may have. -/
theorem parse_text {f : Formula} (h : f.Spellable) (hheight : f.height < Draft.maxHeight) :
    parse f.text = .ok f := by
  obtain ⟨draft, hdraft, hdenotes⟩ := Spellable.draft?_text h
  unfold parse
  rw [hdraft]
  exact hdenotes 0 (by omega)

/-- A sign to the left of a power keeps its parentheses and one to the right needs none; the call of
`R1C1` is no reference, and a mark inside a text is written twice. -/
theorem parse_text_signed_powers :
    (binary .subtract
      (.binary .power (.unary .minus (.cell ⟨0, 0⟩))
        (.unary .minus (.call "R1C1" [.constant (.bool true), .constant (.text "\"")])))
      (.binary .subtract (.constant (.number (.int 2))) (.range ⟨9, 18277⟩ ⟨0, 0⟩))).text =
        "=(-A1) ^ -R1C1(TRUE, \"\"\"\") - (2 - ZZZ10:A1)" ∧
    parse (binary .subtract
      (.binary .power (.unary .minus (.cell ⟨0, 0⟩))
        (.unary .minus (.call "R1C1" [.constant (.bool true), .constant (.text "\"")])))
      (.binary .subtract (.constant (.number (.int 2))) (.range ⟨9, 18277⟩ ⟨0, 0⟩))).text =
      .ok (.binary .subtract
        (.binary .power (.unary .minus (.cell ⟨0, 0⟩))
          (.unary .minus (.call "R1C1" [.constant (.bool true), .constant (.text "\"")])))
        (.binary .subtract (.constant (.number (.int 2))) (.range ⟨9, 18277⟩ ⟨0, 0⟩))) :=
  ⟨by decide +kernel, parse_text (by decide +kernel) (by decide +kernel)⟩

end Spreadsheet.Formula
