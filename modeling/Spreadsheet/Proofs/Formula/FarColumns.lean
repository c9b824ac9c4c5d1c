import Spreadsheet.Proofs.Formula.RoundTrip

/-! Columns too far to the right for three letters. Canonical text names them all the same, and no text
that does so is read: where the first of them stands the reader fails. -/
namespace Spreadsheet.Formula

/-- Whether a corner of a reference has more than three letters. -/
def Reference.IsFar : Reference → Prop
  | .cell a => Address.columnsWithin 3 ≤ a.col
  | .range first last =>
    Address.columnsWithin 3 ≤ first.col ∨ Address.columnsWithin 3 ≤ last.col

theorem Reference.isWritable_range {a b : Address} :
    (Reference.range a b).isWritable ↔ a.isWritable ∧ b.isWritable := by
  rw [Reference.isWritable, Bool.and_eq_true]

theorem Reference.spellable_of_near {r : Reference} (hnat : r.Natural) (hrows : r.isWritable)
    (hnear : ¬r.IsFar) : r.Spellable := by
  cases r with
  | cell a => exact ⟨hnat, Int.not_le.mp hnear, hrows⟩
  | range first last =>
    obtain ⟨hfirst, hlast⟩ := not_or.mp hnear
    obtain ⟨hrow, hrow'⟩ := isWritable_range.mp hrows
    exact ⟨⟨hnat.1, Int.not_le.mp hfirst, hrow⟩, ⟨hnat.2, Int.not_le.mp hlast, hrow'⟩⟩

theorem Reference.Spellable.near {r : Reference} (h : r.Spellable) : ¬r.IsFar := by
  cases r with
  | cell a => exact Int.not_le.mpr (Address.Spellable.col_lt h)
  | range first last =>
    exact not_or.mpr ⟨Int.not_le.mpr (Address.Spellable.col_lt h.1),
      Int.not_le.mpr (Address.Spellable.col_lt h.2)⟩

theorem Reference.Spellable.isWritable {r : Reference} (h : r.Spellable) : r.isWritable := by
  cases r with
  | cell a => exact Address.Spellable.isWritable h
  | range first last =>
    exact isWritable_range.mpr
      ⟨Address.Spellable.isWritable h.1, Address.Spellable.isWritable h.2⟩

/-! ## Failing to read on -/

def Fails (r : Reader) (column : Nat) (input : List Char) : Prop :=
  ∀ text, ∃ e, readFrom text r column input = .error e

theorem Leads.fails {r : Reader} {column : Nat} {input middle : List Char} {p : Reader → Prop}
    (h : Leads r column input p middle) (hrest : ∀ r' column', p r' → Fails r' column' middle) :
    Fails r column input := by
  obtain ⟨r', column', hp, hread⟩ := h
  exact fun text => hread text ▸ hrest r' column' hp text

/-- No token of the classes asked for starts here. -/
theorem fails_misfit {r : Reader} {column : Nat} {c : Char} {rest : List Char}
    (hspacing : isSpacing c = false) (h : Terminal.first? r.focus.candidates (c :: rest) = none) :
    Fails r column (c :: rest) := by
  intro text
  rw [readFrom, hspacing, if_neg Bool.false_ne_true, h]
  exact ⟨_, rfl⟩

theorem fails_blank {r : Reader} {column : Nat} {rest : List Char}
    (h : ∀ column, Fails r column rest) : Fails r column (' ' :: rest) := by
  intro text
  rw [readFrom]
  exact h _ text

section

variable {frames : List Frame} {flag : Bool} {column : Nat} {rest : List Char}

/-- Only a parenthesis may follow a name. -/
theorem fails_name {name : Token} (h : Follows rest ∨ ∃ tail, rest = ':' :: tail) :
    Fails ⟨frames, .name name⟩ column rest := by
  rcases h with h | ⟨tail, rfl⟩
  · cases h with
    | finish =>
      intro text
      rw [readFrom]
      exact ⟨_, rfl⟩
    | close => exact fails_misfit (by decide) rfl
    | comma => exact fails_misfit (by decide) rfl
    | percent => exact fails_misfit (by decide) rfl
    | binary op rest =>
      refine fails_blank fun column => ?_
      cases op <;> exact fails_misfit (by decide) rfl
  · exact fails_misfit (by decide) rfl

theorem fails_far {a : Address} (h : a.Natural) (hfar : Address.columnsWithin 3 ≤ a.col)
    (hrest : Follows rest ∨ ∃ tail, rest = ':' :: tail) :
    Fails ⟨frames, .operand flag⟩ column (a.chars ++ rest) := by
  have hends : Terminal.Ends rest := by
    rcases hrest with hrest | ⟨tail, rfl⟩
    · exact hrest.ends
    · exact ⟨rfl, by simp⟩
  exact (leads_operand (Terminal.lexes_far_address h hfar hends).1 rfl fun _ => .here rfl).fails
    fun r _ hr => hr ▸ fails_name hrest

/-- Wherever a tree may stand without parentheses, its text is not read. -/
def Unreadable (f : Formula) : Prop :=
  ∀ frames flag column rest, Open f.precedence frames → Follows rest →
    Fails ⟨frames, .operand flag⟩ column (f.chars ++ rest)

theorem fails_operator_operand {f : Formula} (hf : Unreadable f) {level : Nat}
    (hopen : Open level frames) (hrest : Follows rest) :
    Fails ⟨frames, .operand flag⟩ column
      (parenthesized (f.precedence < level) f.chars ++ rest) := by
  unfold parenthesized
  by_cases hneeded : f.precedence < level
  · rw [if_pos (decide_eq_true hneeded)]
    have hchars : '(' :: (f.chars ++ [')']) ++ rest = ['('] ++ (f.chars ++ ([')'] ++ rest)) := by simp
    have hgroup : Open f.precedence (.group :: frames) :=
      fun _ frame hframe => by cases hframe; trivial
    rw [hchars]
    exact (leads_operand (Terminal.lexes_open _) rfl fun _ => .here rfl).fails
      fun r column hr => hr ▸ hf _ false column _ hgroup (.close rest)
  · rw [if_neg (by simpa using hneeded)]
    exact hf _ flag column _ (hopen.mono (Nat.le_of_not_lt hneeded)) hrest

theorem unreadable_unary {x : Formula} (hx : Unreadable x) (op : UnaryOp) : Unreadable (.unary op x) := by
  intro frames flag column rest _ hrest
  cases op with
  | percent =>
    rw [chars, List.append_assoc]
    exact fails_operator_operand hx (open_tight (by decide) _) (.percent rest)
  | minus =>
    rw [chars, List.append_assoc]
    · exact (leads_operand (Terminal.lexes_minus _) rfl fun _ => .here rfl).fails
        fun r column hr => hr ▸ fails_operator_operand hx (open_tight (by decide) _) hrest
    · decide
  | plus =>
    rw [chars, List.append_assoc]
    · exact (leads_operand (Terminal.lexes_plus _) rfl fun _ => .here rfl).fails
        fun r column hr => hr ▸ fails_operator_operand hx (open_tight (by decide) _) hrest
    · decide

theorem unreadable_range {a b : Address} (h : (Reference.range a b).Natural)
    (hrows : (Reference.range a b).isWritable) (hfar : (Reference.range a b).IsFar) :
    Unreadable (.range a b) := by
  intro frames flag column rest _ hrest
  have hchars : (range a b).chars ++ rest = a.chars ++ ([':'] ++ (b.chars ++ rest)) := by
    simp [chars]
  rw [hchars]
  by_cases ha : Address.columnsWithin 3 ≤ a.col
  · exact fails_far h.1 ha (.inr ⟨_, rfl⟩)
  · have hb := hfar.resolve_left ha
    have hspell : a.Spellable := ⟨h.1, Int.not_le.mp ha, (Reference.isWritable_range.mp hrows).1⟩
    obtain ⟨-, hnone⟩ := Terminal.lexes_far_address h.2 hb hrest.ends
    have hcorner : ∀ token column, Fails ⟨frames, .corner token⟩ column (b.chars ++ rest) := by
      intro token column
      have hspacing := Terminal.address_not_spacing h.2
      obtain ⟨c, cs, hb⟩ := List.exists_cons_of_ne_nil (Terminal.address_ne_nil h.2)
      rw [hb] at hnone hspacing ⊢
      exact fails_misfit (hspacing c rfl) hnone
    refine (leads_operand (Terminal.lexes_address hspell ⟨rfl, by simp⟩).1 rfl
      fun _ => .token (Terminal.lexes_colon _) rfl fun _ => .here rfl).fails fun r column hr => ?_
    exact hr ▸ hcorner _ column

end

theorem exists_far_append {rs rs' : List Reference} :
    (∃ r ∈ rs ++ rs', r.IsFar) ↔ (∃ r ∈ rs, r.IsFar) ∨ ∃ r ∈ rs', r.IsFar := by
  simp only [List.mem_append, or_and_right, exists_or]

/-- Until a far column the text is read as usual. -/
theorem Regular.reads {f : Formula} (h : f.Regular) (hrows : ∀ r ∈ f.references, r.isWritable)
    (hnear : ¬∃ r ∈ f.references, r.IsFar) : Reads f :=
  Spellable.reads (h.mono fun r hr hnat =>
    Reference.spellable_of_near hnat (hrows r hr) fun hfar => hnear ⟨r, hr, hfar⟩)

mutual

theorem Regular.unreadable {f : Formula} (h : f.Regular)
    (hrows : ∀ r ∈ f.references, r.isWritable) (hfar : ∃ r ∈ f.references, r.IsFar) : Unreadable f := by
  match f with
  | .constant v => simp [references] at hfar
  | .cell a =>
    intro frames flag column rest _ hrest
    have ha : Address.columnsWithin 3 ≤ a.col := by simpa [references, Reference.IsFar] using hfar
    rw [chars]
    exact fails_far (Leaves.cell_iff.mp h) ha (.inl hrest)
  | .range a b =>
    simp only [references, List.mem_singleton, exists_eq_left, forall_eq] at hrows hfar
    exact unreadable_range (Leaves.range_iff.mp h) hrows hfar
  | .unary op x =>
    rw [references] at hrows hfar
    exact unreadable_unary (Regular.unreadable (Leaves.unary_iff.mp h) hrows hfar) op
  | .binary op x y =>
    obtain ⟨hx, hy⟩ := Leaves.binary_iff.mp h
    obtain ⟨-, hprecedence, -⟩ := level_bounds op
    rw [references, List.forall_mem_append] at hrows
    rw [references] at hfar
    intro frames flag column rest hopen hrest
    rw [chars_binary_append]
    by_cases hleft : ∃ r ∈ x.references, r.IsFar
    · exact fails_operator_operand (Regular.unreadable hx hrows.1 hleft)
        (hopen.mono hprecedence) (.binary op _)
    · have hright := (exists_far_append.mp hfar).resolve_left hleft
      refine (leads_left (Regular.reads hx hrows.1 hleft) hopen).fails fun r column hr => ?_
      obtain ⟨left, -, rfl⟩ := hr
      exact fails_operator_operand (Regular.unreadable hy hrows.2 hright) (open_right left frames)
        hrest
  | .call name xs =>
    obtain ⟨hname, hxs⟩ := Leaves.call_iff.mp h
    rw [references] at hrows hfar
    intro frames flag column rest _ hrest
    rw [chars_call_append]
    refine (leads_name hname).fails fun r column hr => ?_
    obtain ⟨token, -, rfl⟩ := hr
    exact fails_arguments hxs hrows hfar

theorem fails_arguments {fs : List Formula} (h : LeavesOfAll Reference.Natural fs)
    (hrows : ∀ r ∈ referencesAll fs, r.isWritable) (hfar : ∃ r ∈ referencesAll fs, r.IsFar)
    {frames : List Frame} {name : Token} {arguments : List Draft} {flag : Bool} {column : Nat}
    {rest : List Char} :
    Fails ⟨.call name arguments :: frames, .operand flag⟩ column (argumentChars fs ++ ')' :: rest) := by
  match fs with
  | [] => simp [referencesAll] at hfar
  | [x] =>
    obtain ⟨hx, -⟩ := leavesOfAll_cons_iff.mp h
    simp only [referencesAll, List.append_nil] at hrows hfar
    rw [argumentChars]
    exact Regular.unreadable hx hrows hfar _ flag column _ (open_call _ name arguments frames)
      (.close rest)
  | x :: y :: ys =>
    obtain ⟨hx, hys⟩ := leavesOfAll_cons_iff.mp h
    rw [referencesAll, List.forall_mem_append] at hrows
    rw [referencesAll] at hfar
    rw [chars_arguments_append]
    by_cases hfirst : ∃ r ∈ x.references, r.IsFar
    · exact Regular.unreadable hx hrows.1 hfirst _ flag column _
        (open_call _ name arguments frames) (.comma _)
    · have hlater := (exists_far_append.mp hfar).resolve_left hfirst
      refine (leads_argument (Regular.reads hx hrows.1 hfirst)).fails fun r column hr => ?_
      obtain ⟨draft, -, rfl⟩ := hr
      exact fails_arguments hys hrows.2 hlater

end

/-- The text of a tree with a far column is no formula. -/
theorem Regular.parse_text_error {f : Formula} (h : f.Regular)
    (hrows : ∀ r ∈ f.references, r.isWritable) (hfar : ∃ r ∈ f.references, r.IsFar) :
    ∃ e, parse f.text = .error e := by
  obtain ⟨e, he⟩ := Regular.unreadable h hrows hfar [] false 2 [] (fun _ _ h => by cases h) .finish
    ('=' :: f.chars)
  rw [List.append_nil] at he
  unfold parse
  rw [Regular.draft?_text_eq h, Reader.start, he]
  exact ⟨e, rfl⟩

end Spreadsheet.Formula
