import Spreadsheet.Formula.Reads
import Spreadsheet.Formula.Shift
import Spreadsheet.Proofs.Address.Moves
import Spreadsheet.Proofs.Formula.Scope
import Spreadsheet.Proofs.Function.Correspondence

/-! Formulas carried along when rows or columns move. A moved formula names the cells that the old one
named, wherever they end up, and the cells of inserted lines that its ranges now span. Over the same
contents it has the same value, since a range may hold more empty cells and a cell outside the bounds
stays outside. -/
namespace Spreadsheet

/-! ## Passes over cells in order -/

section Passes

variable {α : Type} {l : List Address} {read : Address → Outcome}

/-- Readings whose results differ in empty cells only. -/
abbrev SameButBlanks (x y : Except Failure (List (Option Scalar))) : Prop :=
  Corresponds (fun vs ws => vs.filter Option.isSome = ws.filter Option.isSome) x y

theorem mapM_filterMap_corresponds {g : Address → Option Address} {read' : Address → Outcome}
    (h : ∀ a ∈ l, ∃ b, g a = some b ∧ Corresponds Eq (read a) (read' b)) :
    Corresponds Eq (l.mapM read) ((l.filterMap g).mapM read') := by
  induction l with
  | nil => exact .ok rfl
  | cons a l ih =>
    obtain ⟨b, hb, hread⟩ := h a List.mem_cons_self
    have hrest := ih fun c hc => h c (List.mem_cons_of_mem a hc)
    rw [List.filterMap_cons_some hb, List.mapM_cons, List.mapM_cons]
    exact hread.bind fun _ _ hv => hrest.bind fun _ _ hvs => .ok (by rw [hv, hvs])

/-- Cells may be left out of a reading that are empty, or that come after one that fails. -/
theorem mapM_filter_sameButBlanks {p : Address → Bool} (hsorted : l.Pairwise Address.Precedes)
    (h : ∀ b ∈ l, p b = false → read b = .ok none ∨
      ∃ c ∈ l, p c ∧ c.Precedes b ∧ ∃ failure, read c = .error failure) :
    SameButBlanks ((l.filter p).mapM read) (l.mapM read) := by
  induction l with
  | nil => exact .ok rfl
  | cons a l ih =>
    obtain ⟨hafter, hsorted⟩ := List.pairwise_cons.mp hsorted
    rw [List.mapM_cons]
    cases ha : p a with
    | true =>
      rw [List.filter_cons_of_pos ha, List.mapM_cons]
      cases hread : read a with
      | error failure => exact .error failure
      | ok v =>
        refine (ih hsorted fun b hb hp => ?_).bind fun vs ws hvs => .ok ?_
        · refine (h b (List.mem_cons_of_mem a hb) hp).imp_right ?_
          rintro ⟨c, hc, hpc, hcb, failure, hfail⟩
          refine ⟨c, (List.mem_cons.mp hc).resolve_left ?_, hpc, hcb, failure, hfail⟩
          rintro rfl
          rw [hread] at hfail
          contradiction
        · rw [List.filter_cons, List.filter_cons, hvs]
    | false =>
      have hblank : read a = .ok none := by
        refine (h a List.mem_cons_self ha).resolve_right ?_
        rintro ⟨c, hc, -, hca, -⟩
        have hac : a = c ∨ a.Precedes c := (List.mem_cons.mp hc).imp Eq.symm (hafter c)
        unfold Address.Precedes at hca hac
        grind
      have hrest := ih hsorted fun b hb hp => by
        refine (h b (List.mem_cons_of_mem a hb) hp).imp_right ?_
        rintro ⟨c, hc, hpc, hcb, hfail⟩
        refine ⟨c, (List.mem_cons.mp hc).resolve_left ?_, hpc, hcb, hfail⟩
        rintro rfl
        rw [ha] at hpc
        contradiction
      rw [List.filter_cons_of_neg (by simp [ha]), hblank]
      generalize (l.filter p).mapM read = x at hrest ⊢
      generalize l.mapM read = y at hrest ⊢
      cases hrest with
      | ok hvs => exact .ok hvs
      | fault hkind => exact .fault hkind
      | overflow => exact .overflow
      | precision f => exact .precision f

end Passes

namespace Formula

variable {e : LineEdit}

/-! ## Parts -/

/-- The formulas that a formula is put together from. -/
def parts : Formula → List Formula
  | .constant _ | .cell _ | .range _ _ => []
  | .unary _ x => [x]
  | .binary _ x y => [x, y]
  | .call _ xs => xs

/-- What stands in a formula at the end of a path of positions. -/
def at? : Formula → List Nat → Option Formula
  | f, [] => some f
  | f, i :: path => f.parts[i]?.bind fun x => x.at? path

theorem shiftAll_eq_map (xs : List Formula) : shiftAll e xs = xs.map (shift e) := by
  induction xs with
  | nil => rfl
  | cons x xs ih => rw [shiftAll, List.map_cons, ih]

theorem parts_shift (f : Formula) : (f.shift e).parts = f.parts.map (shift e) := by
  cases f with
  | constant v => rfl
  | cell a =>
    rw [shift, shiftCell]
    cases a.shift? e <;> rfl
  | range first last =>
    rw [shift, shiftRange]
    split
    · rfl
    · split <;> rfl
  | unary op x => rfl
  | binary op x y => rfl
  | call name xs => exact shiftAll_eq_map xs

/-- A moved formula has the moved parts of the old one at the same positions. -/
theorem at?_shift (f : Formula) (path : List Nat) :
    (f.shift e).at? path = (f.at? path).map (shift e) := by
  induction path generalizing f with
  | nil => rfl
  | cons i path ih =>
    rw [at?, at?, parts_shift, List.getElem?_map, Option.bind_map, Option.map_bind]
    exact congrArg _ (funext ih)

/-! ## References -/

/-- Where a reference ends up; one whose cells are all deleted nowhere. -/
def Reference.shift? (e : LineEdit) : Reference → Option Reference
  | .cell a => (a.shift? e).map .cell
  | .range first last =>
    let r := Rectangle.ofCorners first last
    (r.shift? e).map fun moved =>
      if moved = r then .range first last else .range moved.topLeft moved.bottomRight

mutual

/-- The references of a moved formula are the moved references, but for those that end up nowhere. -/
theorem references_shift (f : Formula) :
    (f.shift e).references = f.references.filterMap (Reference.shift? e) := by
  match f with
  | .constant v => rfl
  | .cell a =>
    rw [shift, shiftCell, references, List.filterMap_cons, Reference.shift?]
    cases a.shift? e <;> rfl
  | .range first last =>
    rw [shift, shiftRange, references, List.filterMap_cons, Reference.shift?]
    cases (Rectangle.ofCorners first last).shift? e with
    | none => rfl
    | some moved => by_cases hsame : moved = Rectangle.ofCorners first last <;> simp [hsame, references]
  | .unary op x => rw [shift, references, references, references_shift x]
  | .binary op x y =>
    rw [shift, references, references, references_shift x, references_shift y, List.filterMap_append]
  | .call name xs => rw [shift, references, references, referencesAll_shiftAll xs]

theorem referencesAll_shiftAll (xs : List Formula) :
    referencesAll (shiftAll e xs) = (referencesAll xs).filterMap (Reference.shift? e) := by
  match xs with
  | [] => rfl
  | x :: xs =>
    rw [shiftAll, referencesAll, referencesAll, references_shift x, referencesAll_shiftAll xs,
      List.filterMap_append]

end

theorem Reference.shift?_range {first last : Address} {r : Reference}
    (h : (Reference.range first last).shift? e = some r) :
    ∃ moved first' last', (Rectangle.ofCorners first last).shift? e = some moved ∧
      r = .range first' last' ∧ Rectangle.ofCorners first' last' = moved := by
  obtain ⟨moved, hmoved, rfl⟩ := Option.map_eq_some_iff.mp h
  split
  · rename_i hsame
    exact ⟨moved, first, last, hmoved, rfl, hsame.symm⟩
  · have hordered := (Rectangle.ordered_ofCorners first last).shift? hmoved
    exact ⟨moved, _, _, hmoved, rfl, Rectangle.ofCorners_eq_self hordered⟩

/-- A deletion moves no corner to a farther row or column. -/
theorem Reference.corners_shift?_le (he : e.count ≤ 0) {r r' : Reference} (hr : r.shift? e = some r')
    {row col : Int} (h : r.Corners fun a => a.row ≤ row ∧ a.col ≤ col) :
    r'.Corners fun a => a.row ≤ row ∧ a.col ≤ col := by
  cases r with
  | cell a =>
    obtain ⟨b, hb, rfl⟩ := Option.map_eq_some_iff.mp hr
    have hle := Address.shift?_le he hb
    exact ⟨hle.1.trans h.1, hle.2.trans h.2⟩
  | range first last =>
    obtain ⟨moved, hmoved, rfl⟩ := Option.map_eq_some_iff.mp hr
    split
    · exact h
    · have hle := Rectangle.bottomRight_shift?_le he hmoved
      have hordered := (Rectangle.ordered_ofCorners first last).shift? hmoved
      obtain ⟨hfirst, hlast⟩ := h
      unfold Rectangle.Ordered at hordered
      simp only [Rectangle.ofCorners] at hle
      refine ⟨⟨?_, ?_⟩, ?_, ?_⟩ <;> omega

/-- A moved range is missing, or a range with the corners of the moved rectangle. -/
theorem shiftRange_cases (e : LineEdit) (first last : Address) :
    (Rectangle.ofCorners first last).shift? e = none ∧ shiftRange e first last = missing ∨
      ∃ moved first' last', (Rectangle.ofCorners first last).shift? e = some moved ∧
        shiftRange e first last = .range first' last' ∧ Rectangle.ofCorners first' last' = moved := by
  unfold shiftRange
  dsimp only
  split
  · rename_i hnone
    exact .inl ⟨hnone, rfl⟩
  · rename_i moved hmoved
    refine .inr ⟨moved, ?_⟩
    split
    · rename_i hsame
      exact ⟨first, last, hmoved, rfl, hsame.symm⟩
    · have hordered := (Rectangle.ordered_ofCorners first last).shift? hmoved
      exact ⟨_, _, hmoved, rfl, Rectangle.ofCorners_eq_self hordered⟩

/-- A range of which a cell is left stays a range. -/
theorem shift_range {first last : Address}
    (hleft : ∃ a b, (Rectangle.ofCorners first last).Contains a ∧ a.shift? e = some b) :
    ∃ moved first' last', (Rectangle.ofCorners first last).shift? e = some moved ∧
      (range first last).shift e = .range first' last' ∧ Rectangle.ofCorners first' last' = moved := by
  obtain ⟨a, b, hcontains, ha⟩ := hleft
  rcases shiftRange_cases e first last with ⟨hmoved, -⟩ | ⟨moved, first', last', hmoved, hshift, hcorners⟩
  · rw [Rectangle.shift?_eq_none_of_contains hmoved hcontains] at ha
    contradiction
  · exact ⟨moved, first', last', hmoved, by rw [shift, hshift], hcorners⟩

/-- A moved reference names where a cell ends up just if the old one named the cell. -/
theorem Reference.names_shift?_iff {r r' : Reference} (hr : r.shift? e = some r') {a b : Address}
    (ha : a.shift? e = some b) : r'.Names b ↔ r.Names a := by
  cases r with
  | cell c =>
    obtain ⟨d, hd, rfl⟩ := Option.map_eq_some_iff.mp hr
    constructor
    · rintro rfl
      exact Address.shift?_injective ha hd
    · rintro rfl
      rw [ha] at hd
      exact Option.some.inj hd
  | range first last =>
    obtain ⟨moved, first', last', hmoved, rfl, hcorners⟩ := Reference.shift?_range hr
    rw [Names, Names, hcorners, Rectangle.contains_shift?_iff hmoved ha]

theorem Reference.shift?_eq_none_of_names {r : Reference} (hr : r.shift? e = none) {a : Address}
    (ha : r.Names a) : a.shift? e = none := by
  cases r with
  | cell c => exact ha ▸ Option.map_eq_none_iff.mp hr
  | range first last =>
    exact Rectangle.shift?_eq_none_of_contains (Option.map_eq_none_iff.mp hr) ha

/-- A moved formula names where a cell ends up just if the old one named the cell. -/
theorem names_shift_iff {f : Formula} {a b : Address} (ha : a.shift? e = some b) :
    (f.shift e).Names b ↔ f.Names a := by
  unfold Names
  rw [references_shift]
  constructor
  · rintro ⟨r', hr', hb⟩
    obtain ⟨r, hr, hshift⟩ := List.mem_filterMap.mp hr'
    exact ⟨r, hr, (Reference.names_shift?_iff hshift ha).mp hb⟩
  · rintro ⟨r, hr, hnames⟩
    cases hshift : r.shift? e with
    | none =>
      rw [Reference.shift?_eq_none_of_names hshift hnames] at ha
      contradiction
    | some r' =>
      exact ⟨r', List.mem_filterMap.mpr ⟨r, hr, hshift⟩,
        (Reference.names_shift?_iff hshift ha).mpr hnames⟩

/-! ## Sizes -/

theorem oversized?_eq_none {limit : Int} {f : Formula} : f.oversized? limit = none ↔
    ∀ first last, .range first last ∈ f.references →
      (Rectangle.ofCorners first last).area ≤ limit := by
  unfold oversized?
  rw [List.findSome?_eq_none_iff]
  constructor
  · intro h first last hmem
    simpa using h _ hmem
  · intro h r hr
    cases r with
    | cell a => rfl
    | range first last => simpa using h first last hr

/-- A deletion makes no range larger. -/
theorem oversized?_shift_of_count_nonpos (he : e.count ≤ 0) {limit : Int} {f : Formula}
    (h : f.oversized? limit = none) : (f.shift e).oversized? limit = none := by
  rw [oversized?_eq_none] at h ⊢
  intro first' last' hmem
  rw [references_shift] at hmem
  obtain ⟨r, hr, hshift⟩ := List.mem_filterMap.mp hmem
  cases r with
  | cell a =>
    obtain ⟨b, -, hb⟩ := Option.map_eq_some_iff.mp hshift
    contradiction
  | range first last =>
    obtain ⟨moved, _, _, hmoved, hrange, hcorners⟩ := Reference.shift?_range hshift
    cases hrange
    have harea := Rectangle.area_shift?_le he (Rectangle.ordered_ofCorners first last) hmoved
    exact hcorners ▸ harea.trans (h first last hr)

/-- A formula that names no deleted cell has a range too large afterwards if it had one before. -/
theorem oversized?_of_shift {limit : Int} {f : Formula}
    (hleft : ∀ a, f.Names a → ∃ b, a.shift? e = some b)
    (h : (f.shift e).oversized? limit = none) : f.oversized? limit = none := by
  rw [oversized?_eq_none] at h ⊢
  intro first last hr
  have hordered := Rectangle.ordered_ofCorners first last
  have hcells : ∀ a, (Rectangle.ofCorners first last).Contains a → ∃ b, a.shift? e = some b :=
    fun a ha => hleft a ⟨_, hr, ha⟩
  cases hshift : (Reference.range first last).shift? e with
  | none =>
    obtain ⟨b, hb⟩ := hcells _ hordered.contains_topLeft
    rw [Reference.shift?_eq_none_of_names hshift hordered.contains_topLeft] at hb
    contradiction
  | some r =>
    obtain ⟨moved, first', last', hmoved, rfl, hcorners⟩ := Reference.shift?_range hshift
    have hmem : Reference.range first' last' ∈ (f.shift e).references := by
      rw [references_shift]
      exact List.mem_filterMap.mpr ⟨_, hr, hshift⟩
    exact (Rectangle.le_area_shift? hordered hcells hmoved).trans (hcorners ▸ h first' last' hmem)

/-! ## Values -/

/-- What formulas with some references see before and after an edit of lines. All the cells that they
name are left, in rows whose numbers are short enough to write before and after, and the inserted lines
are empty and as long as those before them. -/
structure Scope.Moved (e : LineEdit) (refs : List Reference) (scope scope' : Scope) : Prop where
  precision : scope'.precision = scope.precision
  bounds : ∀ a b, a.shift? e = some b → scope'.bounds.contains b = scope.bounds.contains a
  left : ∀ r ∈ refs, ∀ a, r.Names a → ∃ b, a.shift? e = some b
  writable : ∀ r ∈ refs, ∀ a b, r.Names a → a.shift? e = some b → a.isWritable ∧ b.isWritable
  contents : ∀ r ∈ refs, ∀ a b, r.Names a → scope.bounds.contains a → a.shift? e = some b →
    scope'.contents b = scope.contents a
  blank : ∀ b, e.Inserts (e.axis.position b) → scope'.contents b = none
  inserted : ∀ b c, e.Inserts (e.axis.position b) → e.axis.position c < e.axis.position b →
    e.axis.across c = e.axis.across b → scope'.bounds.contains c → scope'.bounds.contains b

namespace Scope.Moved

variable {refs refs' : List Reference} {scope scope' : Scope}

theorem mono (h : Scope.Moved e refs scope scope') (hsub : refs' ⊆ refs) :
    Scope.Moved e refs' scope scope' where
  precision := h.precision
  bounds := h.bounds
  left r hr := h.left r (hsub hr)
  writable r hr := h.writable r (hsub hr)
  contents r hr := h.contents r (hsub hr)
  blank := h.blank
  inserted := h.inserted

theorem shift_range (h : Scope.Moved e refs scope scope') {first last : Address}
    (hr : .range first last ∈ refs) :
    ∃ moved first' last', (Rectangle.ofCorners first last).shift? e = some moved ∧
      (range first last).shift e = .range first' last' ∧ Rectangle.ofCorners first' last' = moved := by
  have hcorner := (Rectangle.ordered_ofCorners first last).contains_topLeft
  obtain ⟨b, hb⟩ := h.left _ hr _ hcorner
  exact Formula.shift_range ⟨_, b, hcorner, hb⟩

theorem read (h : Scope.Moved e refs scope scope') {r : Reference} (hr : r ∈ refs) {a b : Address}
    (hnames : r.Names a) (ha : a.shift? e = some b) :
    Corresponds Eq (scope.read a) (scope'.read b) := by
  unfold Scope.read
  rw [h.bounds a b ha]
  split
  · rename_i hin
    rw [h.contents r hr a b hnames hin ha]
    exact .refl _
  · obtain ⟨hold, hnew⟩ := h.writable r hr a b hnames ha
    rw [if_pos hold, if_pos hnew]
    exact .fault rfl

/-- A cell of an inserted line is empty, or it lies outside the bounds like the one before the inserted
lines. -/
theorem read_inserted (h : Scope.Moved e refs scope scope') {r moved : Rectangle}
    (hr : r.shift? e = some moved) {b : Address} (hb : moved.Contains b)
    (hinserted : e.Inserts (e.axis.position b)) :
    scope'.read b = .ok none ∨ ∃ c, moved.Contains c ∧ ¬e.Inserts (e.axis.position c) ∧
      c.Precedes b ∧ ∃ failure, scope'.read c = .error failure := by
  unfold Scope.read
  by_cases hin : scope'.bounds.contains b
  · left
    rw [if_pos hin, h.blank b hinserted]
    rfl
  · right
    have hpos : e.axis.position (e.axis.withPosition b (e.index - 1)) = e.index - 1 := by simp
    have hacross : e.axis.across (e.axis.withPosition b (e.index - 1)) = e.axis.across b := by simp
    generalize e.axis.withPosition b (e.index - 1) = c at hpos hacross
    have hbefore : e.axis.position c < e.axis.position b := by
      have hfirst := hinserted.1
      omega
    refine ⟨c, ?_, ?_, ?_, ?_⟩
    · rw [Rectangle.contains_iff e.axis] at hb ⊢
      have hlow := LineEdit.moveSpan?_lt_of_inserts (Rectangle.shift?_eq_some.mp hr).1 hinserted hb.1.1
      omega
    · unfold LineEdit.Inserts
      omega
    · unfold Address.Precedes
      cases haxis : e.axis <;> simp only [haxis, Axis.position, Axis.across] at hbefore hacross <;> omega
    · rw [if_neg fun hc => hin (h.inserted b c hinserted hbefore hacross hc)]
      split
      · exact ⟨_, rfl⟩
      · exact ⟨_, rfl⟩

theorem readCells (h : Scope.Moved e refs scope scope') {first last first' last' : Address}
    {moved : Rectangle} (hr : .range first last ∈ refs)
    (hmoved : (Rectangle.ofCorners first last).shift? e = some moved)
    (hcorners : Rectangle.ofCorners first' last' = moved) :
    SameButBlanks (scope.readCells first last) (scope'.readCells first' last') := by
  rw [readCells_eq_mapM, readCells_eq_mapM, hcorners]
  have hold : Corresponds Eq ((Rectangle.ofCorners first last).cells.mapM scope.read)
      ((moved.cells.filter fun b => ¬e.Inserts (e.axis.position b)).mapM scope'.read) := by
    rw [Rectangle.cells_shift? hmoved]
    apply mapM_filterMap_corresponds
    intro a ha
    obtain ⟨b, hb⟩ := h.left _ hr a (Rectangle.mem_cells.mp ha)
    exact ⟨b, hb, h.read hr (Rectangle.mem_cells.mp ha) hb⟩
  refine hold.trans (mapM_filter_sameButBlanks (Rectangle.pairwise_cells moved) fun b hb hp => ?_)
  rw [decide_eq_false_iff_not, not_not] at hp
  refine (h.read_inserted hmoved (Rectangle.mem_cells.mp hb) hp).imp_right ?_
  rintro ⟨c, hc, hkept, hcb, hfail⟩
  exact ⟨c, Rectangle.mem_cells.mpr hc, decide_eq_true hkept, hcb, hfail⟩

/-- As arguments of functions that take ranges formulas go by their cells or by their value. -/
theorem operand (h : Scope.Moved e refs scope scope') {x : Formula} (hsub : x.references ⊆ refs)
    (hvalue : Corresponds Eq (eval scope x) (eval scope' (x.shift e))) :
    Corresponds (fun o p => o.compact = p.compact)
      (Function.operand ⟨fun _ => eval scope x, rangeCells scope x⟩)
      (Function.operand ⟨fun _ => eval scope' (x.shift e), rangeCells scope' (x.shift e)⟩) := by
  have hsingle : Corresponds (fun o p : Operand => o.compact = p.compact)
      ((eval scope x).map .single) ((eval scope' (x.shift e)).map .single) :=
    hvalue.map fun _ _ hvw => by rw [hvw]
  cases x with
  | range first last =>
    have hr : Reference.range first last ∈ refs := hsub (List.mem_singleton_self _)
    obtain ⟨moved, first', last', hmoved, hshift, hcorners⟩ := h.shift_range hr
    rw [hshift]
    exact (h.readCells hr hmoved hcorners).map fun _ _ hvw => congrArg Operand.cells hvw
  | cell a =>
    obtain ⟨b, hb⟩ := h.left (.cell a) (hsub (List.mem_singleton_self _)) a rfl
    rw [shift, shiftCell, hb] at hsingle ⊢
    exact hsingle
  | constant v => exact hsingle
  | unary op x =>
    rw [shift] at hsingle ⊢
    exact hsingle
  | binary op x y =>
    rw [shift] at hsingle ⊢
    exact hsingle
  | call name xs =>
    rw [shift] at hsingle ⊢
    exact hsingle

end Scope.Moved

section Eval

variable {scope scope' : Scope}

mutual

theorem eval_shift {f : Formula} (h : Scope.Moved e f.references scope scope') :
    Corresponds Eq (eval scope f) (eval scope' (f.shift e)) := by
  match f with
  | .constant v => exact .refl _
  | .cell a =>
    have hmem : Reference.cell a ∈ references (.cell a) := List.mem_singleton_self _
    obtain ⟨b, hb⟩ := h.left _ hmem a rfl
    rw [shift, shiftCell, hb]
    exact h.read hmem rfl hb
  | .range first last =>
    obtain ⟨moved, first', last', -, hshift, -⟩ := h.shift_range (List.mem_singleton_self _)
    rw [hshift]
    exact .refl _
  | .unary op x =>
    rw [references] at h
    rw [shift, eval, eval]
    exact (eval_shift h).bind_same _
  | .binary op x y =>
    rw [references] at h
    rw [shift, eval, eval, h.precision]
    refine (eval_shift (h.mono (List.subset_append_left _ _))).bind fun v w hvw => ?_
    subst hvw
    exact (eval_shift (h.mono (List.subset_append_right _ _))).bind_same _
  | .call name xs =>
    rw [references] at h
    rw [shift, eval, eval, shiftAll_eq_map, List.length_map, ← shiftAll_eq_map, h.precision]
    split
    · exact .refl _
    · split
      · exact Function.apply_corresponds _ (arguments_shift h)
      · exact .refl _

theorem arguments_shift {xs : List Formula} (h : Scope.Moved e (referencesAll xs) scope scope') :
    List.Forall₂ Argument.Matches (arguments scope xs) (arguments scope' (shiftAll e xs)) := by
  match xs with
  | [] => exact .nil
  | x :: xs =>
    rw [referencesAll] at h
    have hx := h.mono (List.subset_append_left x.references (referencesAll xs))
    rw [shiftAll, arguments, arguments]
    exact .cons ⟨eval_shift hx, hx.operand (List.Subset.refl _) (eval_shift hx)⟩
      (arguments_shift (h.mono (List.subset_append_right x.references (referencesAll xs))))

end

/-- A moved formula has the value that the old one had. -/
theorem evaluate_shift {f : Formula} (h : Scope.Moved e f.references scope scope') :
    evaluate scope' (f.shift e) = evaluate scope f := by
  have houtcome := eval_shift h
  unfold evaluate
  generalize eval scope f = x at houtcome ⊢
  generalize eval scope' (f.shift e) = y at houtcome ⊢
  cases houtcome with
  | ok hvw => rw [hvw]
  | fault hkind => exact congrArg (fun kind => Except.ok (Value.error kind)) hkind.symm
  | overflow => rfl
  | precision f => rfl

end Eval

end Formula
end Spreadsheet
