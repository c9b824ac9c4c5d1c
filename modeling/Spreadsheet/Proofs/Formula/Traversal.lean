import Mathlib.Data.List.Lex
import Spreadsheet.Proofs.Formula.Names
import Spreadsheet.Proofs.Formula.Transport

/-! The walk through the nodes of a formula. What is still to be visited waits on a stack, and the walk comes
to every node once, at ascending positions: to the outer one before the inner ones, and from left to right.
The references of a formula are those that it comes to, and the cells that a formula reads are found
there. -/
namespace Spreadsheet.Formula

variable {f x : Formula} {xs : List Formula}

/-! ## The walk -/

theorem sizeOf_append (xs ys : List Formula) : sizeOf (xs ++ ys) + 1 = sizeOf xs + sizeOf ys := by
  induction xs with
  | nil => rw [List.nil_append, List.nil.sizeOf_spec, Nat.add_comm]
  | cons x xs ih =>
    rw [List.cons_append, List.cons.sizeOf_spec, List.cons.sizeOf_spec]
    omega

theorem sizeOf_parts_le (f : Formula) : sizeOf f.parts ≤ sizeOf f + 1 := by
  cases f with
  | constant v | cell a | range first last =>
    rw [parts, List.nil.sizeOf_spec]
    exact Nat.le_add_left 1 _
  | unary op x =>
    rw [parts, List.cons.sizeOf_spec, List.nil.sizeOf_spec, unary.sizeOf_spec]
    omega
  | binary op x y =>
    have hop : 0 < sizeOf op := by cases op <;> decide
    rw [parts, List.cons.sizeOf_spec, List.cons.sizeOf_spec, List.nil.sizeOf_spec, binary.sizeOf_spec]
    omega
  | call name xs =>
    rw [parts, call.sizeOf_spec]
    omega

/-- The nodes below a stack of formulas, in the order in which the walk comes to them: it takes off the
topmost formula and puts the parts of that one in its place. -/
def visit : List Formula → List Formula
  | [] => []
  | f :: stack => f :: visit (f.parts ++ stack)
termination_by stack => sizeOf stack
decreasing_by
  have happend := sizeOf_append f.parts stack
  have hparts := sizeOf_parts_le f
  rw [List.cons.sizeOf_spec]
  omega

/-- The nodes of a formula as the walk comes to them. -/
def nodes (f : Formula) : List Formula := visit [f]

theorem visit_append (fs gs : List Formula) : visit (fs ++ gs) = visit fs ++ visit gs := by
  induction fs using visit.induct with
  | case1 => rw [visit, List.nil_append, List.nil_append]
  | case2 f stack ih => rw [List.cons_append, visit, visit, ← List.append_assoc, ih, List.cons_append]

theorem nodes_eq (f : Formula) : f.nodes = f :: visit f.parts := by
  rw [nodes, visit, List.append_nil]

theorem visit_cons (f : Formula) (fs : List Formula) : visit (f :: fs) = f.nodes ++ visit fs := by
  rw [← List.singleton_append, visit_append, nodes]

theorem sizeOf_lt_of_mem_parts (h : x ∈ f.parts) : sizeOf x < sizeOf f := by
  cases f with
  | constant v | cell a | range first last => contradiction
  | unary op y =>
    cases List.mem_singleton.mp h
    rw [unary.sizeOf_spec]
    omega
  | binary op y z =>
    rw [binary.sizeOf_spec]
    rcases List.mem_pair.mp h with rfl | rfl <;> omega
  | call name xs =>
    have hlt := List.sizeOf_lt_of_mem h
    rw [parts] at hlt
    rw [call.sizeOf_spec]
    omega

/-- What holds of every formula of whose parts it holds, holds of all. -/
theorem induction_parts {p : Formula → Prop} (h : ∀ f, (∀ x ∈ f.parts, p x) → p f) (f : Formula) : p f :=
  h f fun x _ => induction_parts h x
termination_by sizeOf f
decreasing_by exact sizeOf_lt_of_mem_parts ‹_›

/-! ## Positions -/

mutual

/-- The positions in a formula, each the path that leads to it. -/
def positions : Formula → List (List Nat)
  | .unary _ x => [] :: (positions x).map (List.cons 0)
  | .binary _ x y => [] :: ((positions x).map (List.cons 0) ++ (positions y).map (List.cons 1))
  | .call _ xs => [] :: positionsFrom 0 xs
  | _ => [[]]

def positionsFrom (i : Nat) : List Formula → List (List Nat)
  | [] => []
  | x :: xs => (positions x).map (List.cons i) ++ positionsFrom (i + 1) xs

end

theorem positions_eq (f : Formula) : f.positions = [] :: positionsFrom 0 f.parts := by
  cases f <;> simp [positions, positionsFrom, parts]

theorem cons_mem_positionsFrom {i j : Nat} {path : List Nat} :
    j :: path ∈ positionsFrom i xs ↔ ∃ k x, j = i + k ∧ xs[k]? = some x ∧ path ∈ x.positions := by
  induction xs generalizing i with
  | nil => simp [positionsFrom]
  | cons y ys ih =>
    rw [positionsFrom, List.mem_append, ih]
    constructor
    · rintro (hmem | ⟨k, x, rfl, hx, hpath⟩)
      · obtain ⟨path', hpath, heq⟩ := List.mem_map.mp hmem
        cases heq
        exact ⟨0, y, rfl, rfl, hpath⟩
      · exact ⟨k + 1, x, by omega, hx, hpath⟩
    · rintro ⟨k, x, rfl, hx, hpath⟩
      cases k with
      | zero =>
        cases hx
        exact .inl (List.mem_map_of_mem hpath)
      | succ k => exact .inr ⟨k, x, by omega, hx, hpath⟩

theorem not_nil_mem_positionsFrom (i : Nat) (xs : List Formula) : [] ∉ positionsFrom i xs := by
  induction xs generalizing i with
  | nil => simp [positionsFrom]
  | cons y ys ih => simp [positionsFrom, ih]

/-- The positions are the paths at whose ends something stands. -/
theorem mem_positions {path : List Nat} : path ∈ f.positions ↔ (f.at? path).isSome := by
  induction path generalizing f with
  | nil => simp [positions_eq, at?]
  | cons i path ih =>
    rw [positions_eq, List.mem_cons, or_iff_right (by simp), cons_mem_positionsFrom, at?,
      Option.isSome_bind, Option.any_eq_true]
    simp only [ih, Nat.zero_add, exists_and_left, exists_eq_left']

theorem pairwise_positionsFrom {i : Nat} (h : ∀ x ∈ xs, x.positions.Pairwise (· < ·)) :
    (positionsFrom i xs).Pairwise (· < ·) := by
  induction xs generalizing i with
  | nil => exact .nil
  | cons x xs ih =>
    obtain ⟨hx, hxs⟩ := List.forall_mem_cons.mp h
    rw [positionsFrom, List.pairwise_append]
    refine ⟨?_, ih hxs, ?_⟩
    · exact List.pairwise_map.mpr (hx.imp fun hlt => List.cons_lt_cons_iff.mpr (.inr ⟨rfl, hlt⟩))
    · rintro _ hleft right hright
      obtain ⟨path, -, rfl⟩ := List.mem_map.mp hleft
      cases right with
      | nil => exact absurd hright (not_nil_mem_positionsFrom _ _)
      | cons j path' =>
        obtain ⟨k, -, rfl, -, -⟩ := cons_mem_positionsFrom.mp hright
        exact List.cons_lt_cons_iff.mpr (.inl (by omega))

/-- The positions ascend: one comes before those below it and before those to its right. -/
theorem pairwise_positions (f : Formula) : f.positions.Pairwise (· < ·) := by
  induction f using induction_parts with
  | h f ih =>
    rw [positions_eq, List.pairwise_cons]
    refine ⟨fun path hpath => ?_, pairwise_positionsFrom ih⟩
    cases path with
    | nil => exact absurd hpath (not_nil_mem_positionsFrom _ _)
    | cons i path => exact List.nil_lt_cons i path

theorem map_at?_positionsFrom {i : Nat} (h : ∀ x ∈ xs, x.positions.map x.at? = x.nodes.map some)
    (hparts : f.parts.drop i = xs) : (positionsFrom i xs).map f.at? = (visit xs).map some := by
  induction xs generalizing i with
  | nil => rw [positionsFrom, visit, List.map_nil, List.map_nil]
  | cons x xs ih =>
    obtain ⟨hx, hxs⟩ := List.forall_mem_cons.mp h
    have hfirst : f.at? ∘ List.cons i = x.at? := by
      have hpart : f.parts[i]? = some x := by rw [← List.head?_drop, hparts, List.head?_cons]
      funext path
      rw [Function.comp_apply, at?, hpart, Option.bind_some]
    have hrest : f.parts.drop (i + 1) = xs := by rw [← List.tail_drop, hparts, List.tail_cons]
    rw [positionsFrom, List.map_append, List.map_map, hfirst, hx, ih hxs hrest, visit_cons,
      List.map_append]

/-- At the positions, one after the other, stand the nodes that the walk comes to. -/
theorem map_at?_positions (f : Formula) : f.positions.map f.at? = f.nodes.map some := by
  induction f using induction_parts with
  | h f ih =>
    rw [positions_eq, nodes_eq, List.map_cons, List.map_cons, at?, map_at?_positionsFrom ih rfl]

theorem mem_nodes : x ∈ f.nodes ↔ ∃ path, f.at? path = some x := by
  rw [← List.mem_map_of_injective (Option.some_injective _), ← map_at?_positions, List.mem_map]
  exact exists_congr fun path => and_iff_right_of_imp fun h => mem_positions.mpr (by rw [h]; rfl)

/-- Of two positions the lesser one comes first. -/
theorem mem_left_of_positions {before after : List (List Nat)} {path path' : List Nat}
    (heq : f.positions = before ++ path :: after) :
    path' ∈ before ↔ (f.at? path').isSome ∧ path' < path := by
  have hsorted := pairwise_positions f
  rw [heq, List.pairwise_append, List.pairwise_cons] at hsorted
  obtain ⟨-, ⟨hafter, -⟩, hbefore⟩ := hsorted
  rw [← mem_positions, heq, List.mem_append]
  constructor
  · exact fun hmem => ⟨.inl hmem, hbefore path' hmem path List.mem_cons_self⟩
  · rintro ⟨hmem | hmem, hlt⟩
    · exact hmem
    · rcases List.mem_cons.mp hmem with rfl | hmem
      · exact absurd hlt (List.lt_irrefl path')
      · exact absurd (List.lt_trans hlt (hafter path' hmem)) (List.lt_irrefl _)

section

variable {α : Type} (find? : Formula → Option α)

theorem findSome?_nodes (f : Formula) :
    f.nodes.findSome? find? = f.positions.findSome? fun path => (f.at? path).bind find? := by
  calc f.nodes.findSome? find?
      = (f.nodes.map some).findSome? (Option.bind · find?) := by rw [List.findSome?_map]; rfl
    _ = f.positions.findSome? fun path => (f.at? path).bind find? := by
      rw [← map_at?_positions, List.findSome?_map]; rfl

/-- The walk finds first what stands at a position where there is nothing to be found before. -/
theorem findSome?_nodes_eq_some {a : α} : f.nodes.findSome? find? = some a ↔
    ∃ path x, f.at? path = some x ∧ find? x = some a ∧
      ∀ path' < path, ∀ y, f.at? path' = some y → find? y = none := by
  rw [findSome?_nodes, List.findSome?_eq_some_iff]
  constructor
  · rintro ⟨before, path, after, heq, ha, hnone⟩
    obtain ⟨x, hx, hfind⟩ := Option.bind_eq_some_iff.mp ha
    refine ⟨path, x, hx, hfind, fun path' hlt y hy => ?_⟩
    have hmem := (mem_left_of_positions heq).mpr ⟨by rw [hy]; rfl, hlt⟩
    have hbefore := hnone path' hmem
    rwa [hy] at hbefore
  · rintro ⟨path, x, hx, hfind, hfirst⟩
    obtain ⟨before, after, heq⟩ := List.append_of_mem (mem_positions.mpr (by rw [hx]; rfl))
    refine ⟨before, path, after, heq, by rw [hx]; exact hfind, fun path' hmem => ?_⟩
    obtain ⟨hsome, hlt⟩ := (mem_left_of_positions heq).mp hmem
    obtain ⟨y, hy⟩ := Option.isSome_iff_exists.mp hsome
    rw [hy]
    exact hfirst path' hlt y hy

/-- What the walk finds at its nodes, it finds at ascending positions, and nowhere is anything left out. -/
theorem exists_positions (f : Formula) :
    ∃ paths : List (List Nat), paths.Pairwise (· < ·) ∧
      (∀ path, path ∈ paths ↔ ∃ a, (f.at? path).bind find? = some a) ∧
      (f.nodes.filterMap find?).map some = paths.map fun path => (f.at? path).bind find? := by
  refine ⟨f.positions.filter fun path => ((f.at? path).bind find?).isSome,
    (pairwise_positions f).filter _, fun path => ?_, ?_⟩
  · rw [List.mem_filter, mem_positions, ← Option.isSome_iff_exists]
    exact and_iff_right_of_imp fun h => Option.isSome_of_isSome_bind h
  · have hfound : f.nodes.filterMap find? = f.positions.filterMap fun path => (f.at? path).bind find? := by
      calc f.nodes.filterMap find?
          = (f.nodes.map some).filterMap (Option.bind · find?) := by rw [List.filterMap_map]; rfl
        _ = f.positions.filterMap fun path => (f.at? path).bind find? := by
          rw [← map_at?_positions, List.filterMap_map]; rfl
    rw [hfound, List.map_filterMap_some_eq_filter_map_isSome, List.filter_map]
    rfl

end

/-- A recursion over formulas that lists what it finds at their nodes, at the outer one before the inner
ones and from left to right. -/
structure Collects {α : Type} (find? : Formula → Option α) (collect : Formula → List α)
    (collectAll : List Formula → List α) : Prop where
  nil : collectAll [] = []
  cons : ∀ x xs, collectAll (x :: xs) = collect x ++ collectAll xs
  node : ∀ f, collect f = (find? f).toList ++ collectAll f.parts

namespace Collects

variable {α : Type} {find? : Formula → Option α} {collect : Formula → List α}
  {collectAll : List Formula → List α} (h : Collects find? collect collectAll)

include h

theorem append (xs ys : List Formula) : collectAll (xs ++ ys) = collectAll xs ++ collectAll ys := by
  induction xs with
  | nil => rw [h.nil, List.nil_append, List.nil_append]
  | cons x xs ih => rw [List.cons_append, h.cons, h.cons, ih, List.append_assoc]

/-- The walk finds the same. -/
theorem filterMap_visit (fs : List Formula) : (visit fs).filterMap find? = collectAll fs := by
  induction fs using visit.induct with
  | case1 => rw [visit, h.nil, List.filterMap_nil]
  | case2 f stack ih =>
    rw [visit, List.filterMap_cons, ih, h.append, h.cons, h.node, List.append_assoc]
    cases find? f <;> rfl

theorem filterMap_nodes (f : Formula) : f.nodes.filterMap find? = collect f := by
  rw [nodes, h.filterMap_visit, h.cons, h.nil, List.append_nil]

theorem mem_iff {a : α} : a ∈ collect f ↔ ∃ path x, f.at? path = some x ∧ find? x = some a := by
  rw [← h.filterMap_nodes, List.mem_filterMap]
  simp only [mem_nodes]
  grind

end Collects

/-! ## References -/

def reference? : Formula → Option Reference
  | .cell a => some (.cell a)
  | .range first last => some (.range first last)
  | _ => none

theorem collects_references : Collects reference? references referencesAll where
  nil := rfl
  cons _ _ := rfl
  node f := by cases f <;> simp [references, reference?, parts, referencesAll]

/-- The cells that a formula reads, its references and the cells of a range. A cell is read if it lies
within the bounds and some node of the formula is a reference to it or to a range with it, whose corners
stand in any order. The walk through the formula comes to the references one by one, each at its position,
and the positions ascend. A range has each of its cells once, and they ascend. -/
theorem mem_addresses_iff_at? (f : Formula) (bounds : Bounds) (first last : Address) :
    (∀ a, a ∈ f.addresses bounds ↔ bounds.contains a ∧
      ∃ path r, (f.at? path).bind reference? = some r ∧ r.Names a) ∧
    (f.nodes.filterMap reference? = f.references ∧
      ∃ paths : List (List Nat), paths.Pairwise (· < ·) ∧
        (∀ path, path ∈ paths ↔ ∃ r, (f.at? path).bind reference? = some r) ∧
        f.references.map some = paths.map fun path => (f.at? path).bind reference?) ∧
    ((Rectangle.ofCorners first last).cells.Pairwise (fun a b => compare a b = .lt) ∧
      ∀ a, a ∈ (Rectangle.ofCorners first last).cells ↔
        (Rectangle.ofCorners first last).Contains a) := by
  have hwalk := collects_references.filterMap_nodes f
  refine ⟨fun a => ?_, ⟨hwalk, ?_⟩, ?_, fun a => Rectangle.mem_cells⟩
  · rw [mem_addresses, Names]
    simp only [collects_references.mem_iff, Option.bind_eq_some_iff]
    grind
  · have hfound := exists_positions reference? f
    rwa [hwalk] at hfound
  · exact (Rectangle.pairwise_cells _).imp Address.compare_eq_lt.mpr

end Spreadsheet.Formula
