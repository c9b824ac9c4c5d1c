import Spreadsheet.Proofs.Formula.Traversal
import Spreadsheet.Proofs.Formula.Yielding

/-! What the check of the calls in a formula finds, and what it rules out. The walk through the nodes stops
at the first call that is refused. Where there is none, no evaluation tells of an unknown function, unless
it meets that error in a constant or in a cell. -/
namespace Spreadsheet

namespace Formula

variable {f x : Formula}

/-! ## Calls -/

/-- A call that is refused: no function has the name, or the one that has it does not accept so many
arguments. -/
inductive Miscalls : Formula → CallFault → Prop where
  | unknown {name : String} {xs : List Formula} : Function.named? name = none →
    Miscalls (.call name xs) (.unknown name)
  | argumentCount {name : String} {xs : List Formula} {g : Function} : Function.named? name = some g →
    g.accepts xs.length = false → Miscalls (.call name xs) (.argumentCount name xs.length)

def call? : Formula → Option (String × Nat)
  | .call name xs => some (name, xs.length)
  | _ => none

/-- The fault of a call, with no regard to its arguments. -/
def fault? (x : Formula) : Option CallFault := x.call?.bind fun (name, count) => callFault? name count

theorem fault?_eq_some {e : CallFault} : fault? x = some e ↔ Miscalls x e := by
  cases x with
  | call name xs =>
    change callFault? name xs.length = some e ↔ _
    unfold callFault?
    split
    · rename_i hnamed
      constructor
      · rintro ⟨⟩
        exact .unknown hnamed
      · rintro (_ | ⟨hsome, -⟩)
        · rfl
        · rw [hnamed] at hsome
          contradiction
    · rename_i g hnamed
      constructor
      · intro h
        rw [Option.ite_none_left_eq_some] at h
        obtain ⟨haccepts, ⟨⟩⟩ := h
        exact .argumentCount hnamed (by simpa using haccepts)
      · rintro (hnone | ⟨hsome, haccepts⟩)
        · rw [hnamed] at hnone
          contradiction
        · rw [hnamed] at hsome
          cases hsome
          rw [haccepts]
          rfl
  | _ => exact ⟨fun h => by contradiction, fun h => by contradiction⟩

theorem collects_calls : Collects call? calls callsOfAll where
  nil := rfl
  cons _ _ := rfl
  node f := by cases f <;> simp [calls, call?, parts, callsOfAll]

/-- The check is the walk through the nodes up to the first call that is refused. -/
theorem firstCallFault?_eq (f : Formula) : f.firstCallFault? = f.nodes.findSome? fault? := by
  unfold firstCallFault?
  rw [← collects_calls.filterMap_nodes, ← List.head?_filterMap, ← List.head?_filterMap,
    List.filterMap_filterMap]
  rfl

theorem fault?_eq_none : fault? x = none ↔ ∀ e, ¬Miscalls x e := by
  simp only [← fault?_eq_some, Option.eq_none_iff_forall_ne_some]

theorem firstCallFault?_eq_none :
    f.firstCallFault? = none ↔ ∀ path x e, f.at? path = some x → ¬Miscalls x e := by
  rw [firstCallFault?_eq, List.findSome?_eq_none_iff]
  simp only [mem_nodes, fault?_eq_none]
  grind

/-! ## Evaluation -/

theorem collects_names : Collects (fun x => x.call?.map Prod.fst) names namesAll where
  nil := rfl
  cons _ _ := rfl
  node f := by cases f <;> simp [names, call?, parts, namesAll]

def constant? : Formula → Option Value
  | .constant v => some v
  | _ => none

theorem collects_constants : Collects constant? constants constantsAll where
  nil := rfl
  cons _ _ := rfl
  node f := by cases f <;> simp [constants, constant?, parts, constantsAll]

end Formula

/-- Anything may be met, and what is told of an unknown function has a source. -/
def Regime.spared (precision : Int) (source : Prop) : Regime precision where
  number _ := True
  failure
    | .fault fault => fault.kind = .unknownFunction → source
    | _ => True
  carried _ := trivial
  counted _ := trivial
  own {fault} hown hkind := by cases fault <;> contradiction
  overflow := trivial
  unwritten _ _ := trivial

namespace Formula

variable {f : Formula} {scope : Scope}

/-- A formula whose calls are not refused tells of an unknown function only if it meets the error. -/
theorem covers_spared (hcalls : f.firstCallFault? = none)
    (hcontents : ∀ a, scope.contents a ≠ some (.error .unknownFunction)) :
    (Regime.spared scope.precision (.error .unknownFunction ∈ f.constants)).CoversFormula f where
  constant v hv := by
    match v with
    | .scalar s => cases s <;> trivial
    | .error kind =>
      rintro ⟨⟩
      exact hv
  content r _ a _ _ v hv := by
    match v with
    | .scalar s => cases s <;> trivial
    | .error kind =>
      rintro ⟨⟩
      exact absurd hv (hcontents a)
  unwritable _ _ _ _ _ _ := trivial
  unknown name hname hnone := by
    obtain ⟨path, x, hx, hcall⟩ := collects_names.mem_iff.mp hname
    cases x with
    | call name' xs =>
      cases hcall
      exact absurd (.unknown hnone) (firstCallFault?_eq_none.mp hcalls path _ _ hx)
    | _ => contradiction

theorem exists_constant_of_evaluate (hcalls : f.firstCallFault? = none)
    (hcontents : ∀ a, scope.contents a ≠ some (.error .unknownFunction))
    (h : evaluate scope f = .ok (.error .unknownFunction)) :
    ∃ path, f.at? path = some (.constant (.error .unknownFunction)) := by
  have heval := Regime.Yields.eval (covers_spared hcalls hcontents)
  obtain ⟨failure, hfailure, hkind⟩ := exists_failure_of_evaluate h
  rw [hfailure] at heval
  match failure with
  | .fault fault =>
    obtain ⟨path, x, hx, hconstant⟩ := collects_constants.mem_iff.mp (heval (Except.ok.inj hkind))
    cases x with
    | constant v =>
      cases hconstant
      exact ⟨path, hx⟩
    | _ => contradiction
  | .overflow => cases hkind
  | .precision fault => cases hkind

/-- What the check of the calls reports is the fault of a call whose name no function has, or whose number
of arguments is not accepted, and of the first such call: outer calls come before those in their arguments,
and then those to the left. There is a report exactly if there is such a call. If there is none, then over
cells without that error the formula evaluates to the error of an unknown function only if the error is
one of its constants. -/
theorem firstCallFault?_spec (f : Formula) :
    (∀ e, f.firstCallFault? = some e ↔ ∃ path x, f.at? path = some x ∧ Miscalls x e ∧
      ∀ path' < path, ∀ y e', f.at? path' = some y → ¬Miscalls y e') ∧
    (f.firstCallFault? ≠ none ↔ ∃ path x e, f.at? path = some x ∧ Miscalls x e) ∧
    f.firstCallFault? = f.nodes.findSome? fault? ∧
    (f.firstCallFault? = none → ∀ scope : Scope,
      (∀ a, scope.contents a ≠ some (.error .unknownFunction)) →
      evaluate scope f = .ok (.error .unknownFunction) →
        ∃ path, f.at? path = some (.constant (.error .unknownFunction))) := by
  refine ⟨fun e => ?_, ?_, firstCallFault?_eq f, fun hcalls scope hcontents =>
    exists_constant_of_evaluate hcalls hcontents⟩
  · rw [firstCallFault?_eq, findSome?_nodes_eq_some]
    simp only [fault?_eq_some, fault?_eq_none]
    grind
  · rw [Ne, firstCallFault?_eq_none]
    simp only [not_forall, not_not, exists_prop]

/-- A sum of the constant `#NAME?` passes the check and evaluates to the error all the same. -/
theorem firstCallFault?_spec_constant :
    let f : Formula := .call "SUM" [.constant (.error .unknownFunction)]
    let scope : Scope := ⟨fun _ => none, ⟨none, none⟩, 10⟩
    f.firstCallFault? = none ∧ (∀ a, scope.contents a ≠ some (.error .unknownFunction)) ∧
      evaluate scope f = .ok (.error .unknownFunction) ∧
      ∃ path, f.at? path = some (.constant (.error .unknownFunction)) := by
  intro f scope
  have hcalls : f.firstCallFault? = none := by decide +kernel
  have hcontents : ∀ a, scope.contents a ≠ some (.error .unknownFunction) := fun a h => by contradiction
  have hevaluate : evaluate scope f = .ok (.error .unknownFunction) :=
    eq_ok_of_toOption (by decide +kernel)
  exact ⟨hcalls, hcontents, hevaluate,
    (firstCallFault?_spec f).2.2.2 hcalls scope hcontents hevaluate⟩

end Formula
end Spreadsheet
