import Spreadsheet.Formula.Draft
import Spreadsheet.Formula.Printer
import Spreadsheet.Proofs.Formula.Names
import Spreadsheet.Proofs.Formula.Tokens
import Spreadsheet.Proofs.Number.Written

/-! Trees that text can spell, and the drafts that denote them: the tokens that stand for the leaves of
such a tree are read as these leaves. -/
namespace Spreadsheet

open Number (Numeral)

/-! ## Trees -/

/-- A number without a sign; a whole number also has to be short enough to write. The sign of a
negative number, of the negative zero too, is an operator in the text. -/
def Number.Spellable : Number → Prop
  | .int i => 0 ≤ i ∧ Number.isWritable i
  | .float (.finite negative _) => negative = false
  | .float _ => False

def Value.Spellable : Value → Prop
  | .number n => n.Spellable
  | _ => True

instance : DecidablePred Number.Spellable
  | .int _ => inferInstanceAs (Decidable (_ ∧ _))
  | .float (.finite _ _) => inferInstanceAs (Decidable (_ = _))
  | .float (.infinite _) => inferInstanceAs (Decidable False)
  | .float .nan => inferInstanceAs (Decidable False)

instance : DecidablePred Value.Spellable
  | .scalar (.number n) => inferInstanceAs (Decidable n.Spellable)
  | .scalar (.text _) => inferInstanceAs (Decidable True)
  | .scalar (.bool _) => inferInstanceAs (Decidable True)
  | .error _ => inferInstanceAs (Decidable True)

namespace Formula

def Reference.Spellable : Reference → Prop
  | .cell a => a.Spellable
  | .range first last => first.Spellable ∧ last.Spellable

instance : DecidablePred Reference.Spellable
  | .cell a => inferInstanceAs (Decidable a.Spellable)
  | .range _ _ => inferInstanceAs (Decidable (_ ∧ _))

/-- A name in upper case. -/
def IsCallName (name : String) : Prop :=
  Terminal.IsName name.toList ∧ Text.upper name.toList = name.toList

instance : DecidablePred IsCallName := fun _ => inferInstanceAs (Decidable (_ ∧ _))

mutual

/-- The constants of a formula from left to right. -/
def constants : Formula → List Value
  | .constant v => [v]
  | .cell _ | .range _ _ => []
  | .unary _ x => constants x
  | .binary _ x y => constants x ++ constants y
  | .call _ xs => constantsAll xs

def constantsAll : List Formula → List Value
  | [] => []
  | x :: xs => constants x ++ constantsAll xs

end

mutual

/-- The names of the functions that a formula calls. -/
def names : Formula → List String
  | .constant _ | .cell _ | .range _ _ => []
  | .unary _ x => names x
  | .binary _ x y => names x ++ names y
  | .call name xs => name :: namesAll xs

def namesAll : List Formula → List String
  | [] => []
  | x :: xs => names x ++ namesAll xs

end

mutual

/-- How many levels a tree has. -/
def height : Formula → Nat
  | .constant _ | .cell _ | .range _ _ => 1
  | .unary _ x => height x + 1
  | .binary _ x y => max (height x) (height y) + 1
  | .call _ xs => heightAll xs + 1

def heightAll : List Formula → Nat
  | [] => 0
  | x :: xs => max (height x) (heightAll xs)

end

/-- Text can spell the constants of a tree and the names that it calls, and its references satisfy
`q`. -/
structure Leaves (q : Reference → Prop) (f : Formula) : Prop where
  constants : ∀ v ∈ f.constants, v.Spellable
  references : ∀ r ∈ f.references, q r
  names : ∀ name ∈ f.names, IsCallName name

/-- Text can spell every leaf of a tree and every name that it calls. -/
abbrev Spellable (f : Formula) : Prop := f.Leaves Reference.Spellable

/-- What every tree that was read from text satisfies, also one with columns that no letters name. -/
abbrev Regular (f : Formula) : Prop := f.Leaves Reference.Natural

instance (f : Formula) : Decidable f.Spellable :=
  decidable_of_iff ((∀ v ∈ f.constants, v.Spellable) ∧ (∀ r ∈ f.references, r.Spellable) ∧
      ∀ name ∈ f.names, IsCallName name)
    ⟨fun h => ⟨h.1, h.2.1, h.2.2⟩, fun h => ⟨h.1, h.2, h.3⟩⟩

structure LeavesOfAll (q : Reference → Prop) (fs : List Formula) : Prop where
  constants : ∀ v ∈ constantsAll fs, v.Spellable
  references : ∀ r ∈ referencesAll fs, q r
  names : ∀ name ∈ namesAll fs, IsCallName name

namespace Leaves

variable {q : Reference → Prop} {op : UnaryOp} {x y : Formula} {xs : List Formula} {name : String}

theorem mono {q' : Reference → Prop} {f : Formula} (h : f.Leaves q)
    (hq : ∀ r ∈ f.references, q r → q' r) : f.Leaves q' :=
  ⟨h.constants, fun r hr => hq r hr (h.references r hr), h.names⟩

theorem constant_iff {v : Value} : (constant v).Leaves q ↔ v.Spellable :=
  ⟨fun h => h.constants v List.mem_cons_self,
    fun h => ⟨List.forall_mem_singleton.mpr h, List.forall_mem_nil _, List.forall_mem_nil _⟩⟩

theorem cell_iff {a : Address} : (cell a).Leaves q ↔ q (.cell a) :=
  ⟨fun h => h.references _ List.mem_cons_self,
    fun h => ⟨List.forall_mem_nil _, List.forall_mem_singleton.mpr h, List.forall_mem_nil _⟩⟩

theorem range_iff {a b : Address} : (range a b).Leaves q ↔ q (.range a b) :=
  ⟨fun h => h.references _ List.mem_cons_self,
    fun h => ⟨List.forall_mem_nil _, List.forall_mem_singleton.mpr h, List.forall_mem_nil _⟩⟩

theorem unary_iff : (unary op x).Leaves q ↔ x.Leaves q :=
  ⟨fun h => ⟨h.constants, h.references, h.names⟩, fun h => ⟨h.constants, h.references, h.names⟩⟩

theorem binary_iff {op : BinaryOp} : (binary op x y).Leaves q ↔ x.Leaves q ∧ y.Leaves q := by
  constructor
  · intro h
    obtain ⟨hconstants, hconstants'⟩ := List.forall_mem_append.mp h.constants
    obtain ⟨hreferences, hreferences'⟩ := List.forall_mem_append.mp h.references
    obtain ⟨hnames, hnames'⟩ := List.forall_mem_append.mp h.names
    exact ⟨⟨hconstants, hreferences, hnames⟩, ⟨hconstants', hreferences', hnames'⟩⟩
  · rintro ⟨hx, hy⟩
    exact ⟨List.forall_mem_append.mpr ⟨hx.constants, hy.constants⟩,
      List.forall_mem_append.mpr ⟨hx.references, hy.references⟩,
      List.forall_mem_append.mpr ⟨hx.names, hy.names⟩⟩

theorem call_iff : (call name xs).Leaves q ↔ IsCallName name ∧ LeavesOfAll q xs := by
  constructor
  · intro h
    obtain ⟨hname, hnames⟩ := List.forall_mem_cons.mp h.names
    exact ⟨hname, h.constants, h.references, hnames⟩
  · rintro ⟨hname, hxs⟩
    exact ⟨hxs.constants, hxs.references, List.forall_mem_cons.mpr ⟨hname, hxs.names⟩⟩

end Leaves

theorem leavesOfAll_nil (q : Reference → Prop) : LeavesOfAll q [] :=
  ⟨List.forall_mem_nil _, List.forall_mem_nil _, List.forall_mem_nil _⟩

theorem leavesOfAll_cons_iff {q : Reference → Prop} {x : Formula} {xs : List Formula} :
    LeavesOfAll q (x :: xs) ↔ x.Leaves q ∧ LeavesOfAll q xs := by
  constructor
  · intro h
    obtain ⟨hconstants, hconstants'⟩ := List.forall_mem_append.mp h.constants
    obtain ⟨hreferences, hreferences'⟩ := List.forall_mem_append.mp h.references
    obtain ⟨hnames, hnames'⟩ := List.forall_mem_append.mp h.names
    exact ⟨⟨hconstants, hreferences, hnames⟩, ⟨hconstants', hreferences', hnames'⟩⟩
  · rintro ⟨hx, hxs⟩
    exact ⟨List.forall_mem_append.mpr ⟨hx.constants, hxs.constants⟩,
      List.forall_mem_append.mpr ⟨hx.references, hxs.references⟩,
      List.forall_mem_append.mpr ⟨hx.names, hxs.names⟩⟩

theorem Reference.Spellable.natural {r : Reference} (h : r.Spellable) : r.Natural := by
  cases r with
  | cell a => exact Address.Spellable.natural h
  | range first last => exact ⟨Address.Spellable.natural h.1, Address.Spellable.natural h.2⟩

theorem Spellable.regular {f : Formula} (h : f.Spellable) : f.Regular :=
  h.mono fun _ _ => Reference.Spellable.natural

/-! ## What a draft denotes -/

namespace Draft

/-- At every depth that leaves room for it, the draft resolves to the tree. -/
def Denotes (draft : Draft) (f : Formula) : Prop :=
  ∀ depth, depth + f.height < maxHeight → draft.resolveAt depth = .ok f

def DenotesAll (drafts : List Draft) (fs : List Formula) : Prop :=
  ∀ depth, depth + heightAll fs < maxHeight → resolveAll depth drafts = .ok fs

theorem denotes_leaf {token : Token} {f : Formula} (h : readLeaf token = .ok f) (hf : f.height = 1) :
    (leaf token).Denotes f := by
  intro depth hdepth
  rw [hf] at hdepth
  rw [resolveAt, if_neg (by omega), h]

theorem denotes_range {first last : Token} {a b : Address} (hfirst : readAddress first = .ok a)
    (hlast : readAddress last = .ok b) : (range first last).Denotes (.range a b) := by
  intro depth hdepth
  rw [Formula.height] at hdepth
  rw [resolveAt, if_neg (by omega), hfirst, hlast]
  rfl

theorem Denotes.unary {draft : Draft} {x : Formula} (h : draft.Denotes x) (op : UnaryOp) :
    (unary op draft).Denotes (.unary op x) := by
  intro depth hdepth
  rw [Formula.height] at hdepth
  rw [resolveAt, if_neg (by omega), h (depth + 1) (by omega)]
  rfl

theorem Denotes.binary {left right : Draft} {x y : Formula} (hx : left.Denotes x)
    (hy : right.Denotes y) (op : BinaryOp) : (binary op left right).Denotes (.binary op x y) := by
  intro depth hdepth
  rw [Formula.height] at hdepth
  rw [resolveAt, if_neg (by omega), hx (depth + 1) (by omega), hy (depth + 1) (by omega)]
  rfl

theorem denotesAll_nil : DenotesAll [] [] := fun _ _ => rfl

theorem Denotes.cons {draft : Draft} {drafts : List Draft} {x : Formula} {xs : List Formula}
    (hx : draft.Denotes x) (hxs : DenotesAll drafts xs) : DenotesAll (draft :: drafts) (x :: xs) := by
  intro depth hdepth
  rw [heightAll] at hdepth
  rw [resolveAll, hx depth (by omega), hxs depth (by omega)]
  rfl

theorem DenotesAll.call {drafts : List Draft} {xs : List Formula} (h : DenotesAll drafts xs)
    {token : Token} {name : String} (hname : Text.upper token.chars = name.toList) :
    (call token drafts).Denotes (.call name xs) := by
  intro depth hdepth
  rw [Formula.height] at hdepth
  rw [resolveAt, if_neg (by omega), h (depth + 1) (by omega), hname, String.ofList_toList]
  rfl

/-! ### Leaves -/

theorem readAddress_chars {a : Address} (h : a.Spellable) (column : Nat) :
    readAddress ⟨.cell, a.chars, column⟩ = .ok a := by
  have hread : Address.ofText? (String.ofList a.chars) = .ok a := Address.ofText?_text h
  unfold readAddress readCell
  dsimp only
  rw [hread]

theorem readLeaf_address {a : Address} (h : a.Spellable) (column : Nat) :
    readLeaf ⟨.cell, a.chars, column⟩ = .ok (.cell a) := by
  unfold readLeaf
  dsimp only
  rw [readAddress_chars h]
  rfl

theorem unquoted_flatMap (cs : List Char) :
    unquoted (cs.flatMap fun c => if c == '"' then ['"', '"'] else [c]) = cs := by
  induction cs with
  | nil => rfl
  | cons c cs ih =>
    rw [List.flatMap_cons]
    by_cases hc : c = '"'
    · subst hc
      simp only [beq_self_eq_true, if_true, List.cons_append, List.nil_append]
      rw [unquoted, ih]
    · simp only [beq_eq_false_iff_ne.mpr hc, Bool.false_eq_true, if_false, List.cons_append,
        List.nil_append]
      rw [unquoted, ih]
      exact fun _ heq _ => hc heq

theorem readLeaf_quotedText (s : String) (column : Nat) :
    readLeaf ⟨.text, quotedText s.toList, column⟩ = .ok (.constant (.text s)) := by
  unfold readLeaf readText quotedText
  dsimp only
  rw [List.drop_one, List.tail_cons, List.dropLast_concat, unquoted_flatMap, String.ofList_toList]

theorem readLeaf_boolText (b : Bool) (column : Nat) :
    readLeaf ⟨.bool, (boolText b).toList, column⟩ = .ok (.constant (.bool b)) := by
  have hupper : decide (Text.upper (boolText b).toList = ['T', 'R', 'U', 'E']) = b := by
    cases b <;> decide
  unfold readLeaf readBool
  dsimp only
  rw [hupper]

theorem readLeaf_code (kind : ErrorKind) (column : Nat) :
    readLeaf ⟨.errorCode, kind.code.toList, column⟩ = .ok (.constant (.error kind)) := by
  have hcode : ErrorKind.ofCode? kind.code = some kind := by
    cases kind <;> decide
  unfold readLeaf readErrorCode
  dsimp only
  rw [String.ofList_toList, hcode]
  rfl

theorem readLeaf_natChars {n : Nat} (h : Number.isWritable n) (column : Nat) :
    readLeaf ⟨.number, Number.natChars n, column⟩ = .ok (.constant (.number (.int n))) := by
  have hdigits : ((Number.natChars n).any fun c => c == '.' || c == 'e' || c == 'E') = false := by
    rw [List.any_eq_false]
    intro c hc hmark
    have hdigit := Number.isAsciiDigit_of_mem_natChars hc
    simp only [Bool.or_eq_true, beq_iff_eq] at hmark
    rcases hmark with (rfl | rfl) | rfl <;> exact absurd hdigit (by decide)
  unfold readLeaf readNumber
  dsimp only
  rw [hdigits, if_neg Bool.false_ne_true, Number.natOfDigits_natChars h]
  rfl

theorem readLeaf_numeral (n : Numeral) (hmark : n.fraction ≠ [] ∨ n.exponent ≠ none)
    {m : Number.Magnitude} (hvalue : n.decimal.toBinary = .finite false m) (column : Nat) :
    readLeaf ⟨.number, n.chars, column⟩ = .ok (.constant (.number (.float (.finite false m)))) := by
  have hany : (n.chars.any fun c => c == '.' || c == 'e' || c == 'E') = true := by
    rw [List.any_eq_true]
    unfold Numeral.chars Numeral.fractionChars Numeral.exponentPart
    rcases hmark with hfraction | hexponent
    · exact ⟨'.', by simp [hfraction], rfl⟩
    · obtain ⟨e, he⟩ := Option.ne_none_iff_exists'.mp hexponent
      exact ⟨'e', by simp [he], rfl⟩
  unfold readLeaf readNumber
  dsimp only
  rw [hany, if_pos rfl, Numeral.ofChars?_chars, Option.map_some, hvalue]
  rfl

end Draft

end Formula
end Spreadsheet
