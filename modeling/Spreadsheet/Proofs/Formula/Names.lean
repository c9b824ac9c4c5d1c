import Spreadsheet.Formula.Parser
import Spreadsheet.Formula.Reads
import Spreadsheet.Proofs.Address.Rectangle
import Spreadsheet.Proofs.Address.Spelling

/-! The cells that a formula names. They lie in no negative row or column, and a formula reads those of
them that lie within the bounds. -/
namespace Spreadsheet

/-! ## References -/

namespace Formula

/-- The cells of a reference, with no regard to bounds. -/
def Reference.Names : Reference → Address → Prop
  | .cell a, b => b = a
  | .range first last, b => (Rectangle.ofCorners first last).Contains b

instance Reference.decidableNames (b : Address) : (r : Reference) → Decidable (r.Names b)
  | .cell _ => inferInstanceAs (Decidable (_ = _))
  | .range _ _ => inferInstanceAs (Decidable (_ ∧ _ ∧ _ ∧ _))

/-- The cells that a formula names, alone or inside a range. -/
def Names (f : Formula) (b : Address) : Prop := ∃ r ∈ f.references, r.Names b

instance (f : Formula) (b : Address) : Decidable (f.Names b) :=
  inferInstanceAs (Decidable (∃ r ∈ f.references, r.Names b))

theorem Reference.mem_addresses {r : Reference} {bounds : Bounds} {b : Address} :
    b ∈ r.addresses bounds ↔ bounds.contains b ∧ r.Names b := by
  cases r with
  | cell a =>
    unfold Reference.addresses Reference.Names
    split <;> grind
  | range first last =>
    unfold Reference.addresses Reference.Names
    rw [← Rectangle.mem_clip?]
    dsimp only
    split <;> simp_all [Rectangle.mem_cells]

private theorem mem_foldl_insertMany {refs : List Reference} {bounds : Bounds} {found : AddressSet}
    {b : Address} :
    b ∈ refs.foldl (fun found r => found.insertMany (r.addresses bounds)) found ↔
      b ∈ found ∨ ∃ r ∈ refs, b ∈ r.addresses bounds := by
  induction refs generalizing found with
  | nil => simp
  | cons r refs ih =>
    rw [List.foldl_cons, ih, Std.ExtTreeSet.mem_insertMany_list]
    simp only [List.contains_eq_mem, decide_eq_true_eq, List.mem_cons, exists_eq_or_imp, or_assoc]

theorem mem_addresses {f : Formula} {bounds : Bounds} {b : Address} :
    b ∈ f.addresses bounds ↔ bounds.contains b ∧ f.Names b := by
  unfold addresses Names
  rw [mem_foldl_insertMany]
  simp only [Std.ExtTreeSet.not_mem_empty, false_or, Reference.mem_addresses]
  grind

theorem names_cell {a b : Address} : (Formula.cell a).Names b ↔ b = a := by
  simp [Names, references, Reference.Names]

end Formula

/-! ## References in text -/

namespace Formula

/-- A reference without a negative row or column. -/
def Reference.Natural : Reference → Prop
  | .cell a => a.Natural
  | .range first last => first.Natural ∧ last.Natural

/-- Whether the corners of a reference have a property. -/
def Reference.Corners (q : Address → Prop) : Reference → Prop
  | .cell a => q a
  | .range first last => q first ∧ q last

theorem Reference.corners_natural {r : Reference} : r.Corners Address.Natural ↔ r.Natural := by
  cases r <;> rfl

theorem Reference.Natural.names {r : Reference} (h : r.Natural) {b : Address} (hb : r.Names b) :
    b.Natural := by
  cases r with
  | cell a => exact hb ▸ h
  | range first last =>
    obtain ⟨htop, -, hleft, -⟩ := hb
    simp only [Rectangle.ofCorners] at htop hleft
    exact ⟨by have := h.1.1; have := h.2.1; omega, by have := h.1.2; have := h.2.2; omega⟩

namespace Draft

theorem natural_of_readAddress {token : Token} {a : Address} (h : readAddress token = .ok a) :
    a.Natural := by
  unfold readAddress at h
  split at h
  · unfold readRowColumn at h
    dsimp only at h
    split at h
    · cases h
    · cases h
    · split at h
      · cases h
      · cases h
        exact ⟨by dsimp only; omega, by dsimp only; omega⟩
  · unfold readCell at h
    split at h
    · rename_i hread
      cases h
      exact Address.natural_of_ofText? hread
    · cases h

theorem exists_number_of_readNumber {token : Token} {v : Value} (h : readNumber token = .ok v) :
    ∃ n, v = .number n := by
  unfold readNumber at h
  split at h
  · split at h
    · split at h <;> cases h
      exact ⟨_, rfl⟩
    · contradiction
  · split at h <;> cases h
    exact ⟨_, rfl⟩

/-- What a token is read as where it stands for itself. -/
inductive ReadsAs (token : Token) : Formula → Prop where
  | number {n : Number} : token.terminal = .number → readNumber token = .ok (.number n) →
    ReadsAs token (.constant (.number n))
  | text : token.terminal = .text → ReadsAs token (.constant (readText token))
  | bool : token.terminal = .bool → ReadsAs token (.constant (readBool token))
  | errorCode {kind : ErrorKind} : token.terminal = .errorCode →
    ErrorKind.ofCode? (String.ofList token.chars) = some kind →
      ReadsAs token (.constant (.error kind))
  | address {a : Address} : readAddress token = .ok a → ReadsAs token (.cell a)

theorem readsAs_of_readLeaf {token : Token} {f : Formula} (h : readLeaf token = .ok f) :
    ReadsAs token f := by
  unfold readLeaf at h
  split at h
  · rename_i hnumber
    obtain ⟨v, hv, rfl⟩ := map_eq_ok.mp h
    obtain ⟨n, rfl⟩ := exists_number_of_readNumber hv
    exact .number hnumber hv
  · rename_i htext
    cases h
    exact .text htext
  · rename_i hbool
    cases h
    exact .bool hbool
  · rename_i hcode
    obtain ⟨v, hv, rfl⟩ := map_eq_ok.mp h
    unfold readErrorCode at hv
    split at hv
    · rename_i kind hkind
      cases hv
      exact .errorCode hcode hkind
    · contradiction
  · obtain ⟨a, ha, rfl⟩ := map_eq_ok.mp h
    exact .address ha

/-- A property of all addresses that are read holds of the corners of the references. -/
theorem corners_of_readLeaf {q : Address → Prop} {token : Token}
    (hq : ∀ a, readAddress token = .ok a → q a) {f : Formula} (h : readLeaf token = .ok f) :
    ∀ r ∈ f.references, r.Corners q := by
  cases readsAs_of_readLeaf h with
  | address ha => simpa [references, Reference.Corners] using hq _ ha
  | number _ _ | text _ | bool _ | errorCode _ _ => simp [references]

mutual

theorem corners_of_resolveAt {q : Address → Prop} (hq : ∀ token a, readAddress token = .ok a → q a)
    {depth : Nat} {draft : Draft} {f : Formula} (h : draft.resolveAt depth = .ok f) :
    ∀ r ∈ f.references, r.Corners q := by
  match draft with
  | .leaf token =>
    rw [resolveAt, ite_error_eq_ok] at h
    exact corners_of_readLeaf (hq token) h.2
  | .range first last =>
    rw [resolveAt, ite_error_eq_ok] at h
    obtain ⟨a, ha, h⟩ := bind_eq_ok.mp h.2
    obtain ⟨b, hb, h⟩ := bind_eq_ok.mp h
    cases h
    simpa [references, Reference.Corners] using ⟨hq first a ha, hq last b hb⟩
  | .unary op operand =>
    rw [resolveAt, ite_error_eq_ok] at h
    obtain ⟨x, hx, h⟩ := bind_eq_ok.mp h.2
    cases h
    rw [references]
    exact corners_of_resolveAt hq hx
  | .binary op left right =>
    rw [resolveAt, ite_error_eq_ok] at h
    obtain ⟨x, hx, h⟩ := bind_eq_ok.mp h.2
    obtain ⟨y, hy, h⟩ := bind_eq_ok.mp h
    cases h
    intro r hr
    rw [references, List.mem_append] at hr
    exact hr.elim (corners_of_resolveAt hq hx r) (corners_of_resolveAt hq hy r)
  | .call name arguments =>
    rw [resolveAt, ite_error_eq_ok] at h
    obtain ⟨xs, hxs, h⟩ := bind_eq_ok.mp h.2
    cases h
    rw [references]
    exact corners_of_resolveAll hq hxs

theorem corners_of_resolveAll {q : Address → Prop} (hq : ∀ token a, readAddress token = .ok a → q a)
    {depth : Nat} {drafts : List Draft} {fs : List Formula}
    (h : resolveAll depth drafts = .ok fs) : ∀ r ∈ referencesAll fs, r.Corners q := by
  match drafts with
  | [] =>
    unfold resolveAll at h
    cases h
    simp [referencesAll]
  | draft :: drafts =>
    unfold resolveAll at h
    obtain ⟨x, hx, h⟩ := bind_eq_ok.mp h
    obtain ⟨xs, hxs, h⟩ := bind_eq_ok.mp h
    cases h
    intro r hr
    rw [referencesAll, List.mem_append] at hr
    exact hr.elim (corners_of_resolveAt hq hx r) (corners_of_resolveAll hq hxs r)

end

end Draft

theorem corners_of_parse {q : Address → Prop}
    (hq : ∀ token a, Draft.readAddress token = .ok a → q a) {s : String} {f : Formula}
    (h : parse s = .ok f) : ∀ r ∈ f.references, r.Corners q := by
  obtain ⟨draft, -, hdraft⟩ := bind_eq_ok.mp h
  exact Draft.corners_of_resolveAt hq hdraft

theorem isFormulaText_of_parse {s : String} {f : Formula} (h : parse s = .ok f) :
    isFormulaText s = true := by
  obtain ⟨draft, hdraft, -⟩ := bind_eq_ok.mp h
  unfold draft? at hdraft
  unfold isFormulaText
  split at hdraft
  · rename_i heq
    rw [heq]
    rfl
  · contradiction

theorem natural_of_parse {s : String} {f : Formula} (h : parse s = .ok f) {b : Address}
    (hb : f.Names b) : b.Natural := by
  obtain ⟨r, hr, hnames⟩ := hb
  have hcorners := corners_of_parse (fun _ _ => Draft.natural_of_readAddress) h r hr
  exact (Reference.corners_natural.mp hcorners).names hnames

end Formula
end Spreadsheet
