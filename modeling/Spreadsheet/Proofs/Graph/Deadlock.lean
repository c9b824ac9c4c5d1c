import Mathlib.Data.List.Permutation
import Spreadsheet.Proofs.Graph.Order

/-! Which cells have no place in any order: those on a cycle among the cells to be ordered, and those
that read one on a cycle through them. There is an order just if there is no such cycle. -/
namespace Spreadsheet.Graph

open Relation (ReflTransGen TransGen)

section Endless

variable {α : Type} {r : α → α → Prop} {a b : α}

/-- Among finitely many points a way that does not end comes back to one of them. -/
theorem exists_transGen_self_of_not_acc (hfinite : {a | ∃ b, r a b}.Finite)
    (h : ¬Acc (Function.swap r) a) : ∃ b, ReflTransGen r a b ∧ TransGen r b b := by
  obtain ⟨way, hstart, hsteps⟩ := not_acc_iff_exists_descending_chain.mp h
  have hsource : ∀ n, way n ∈ {a | ∃ b, r a b} := fun n => ⟨way (n + 1), hsteps n⟩
  obtain ⟨m, n, hlt, hsame⟩ := hfinite.exists_lt_map_eq_of_forall_mem hsource
  refine ⟨way m, ?_, ?_⟩
  · rw [← hstart]
    exact Nat.rel_of_forall_rel_succ_of_le (ReflTransGen r) (fun n => .single (hsteps n)) m.zero_le
  · have hround := Nat.rel_of_forall_rel_succ_of_lt (TransGen r) (fun n => .single (hsteps n)) hlt
    rwa [← hsame] at hround

/-- A point from which every way ends lies on no cycle. -/
theorem not_transGen_self_of_acc (h : Acc (Function.swap r) a) : ¬TransGen r a a := by
  induction h with
  | intro a _ ih =>
    intro hround
    obtain ⟨b, hab, hba⟩ := TransGen.head'_iff.mp hround
    exact ih b hab (.tail' hba hab)

theorem acc_of_reflTransGen (h : Acc (Function.swap r) a) (hab : ReflTransGen r a b) :
    Acc (Function.swap r) b := by
  induction hab with
  | refl => exact h
  | tail _ hbc ih => exact ih.inv hbc

end Endless

/-! ## Cycles among given cells -/

/-- Whether a cell lies on a cycle among the given cells. -/
def OnCycle (g : Graph) (p : Address → Prop) (a : Address) : Prop := TransGen (g.ReadsAmong p) a a

variable {g : Graph} {cells : AddressSet} {a : Address}

theorem OnCycle.mem {p : Address → Prop} (h : g.OnCycle p a) : p a := by
  obtain ⟨b, hab, -⟩ := TransGen.head'_iff.mp h
  exact hab.1

/-- From a cell every way among finitely many cells ends unless one leads to a cycle. -/
theorem not_acc_readsAmong_iff : ¬Acc (Function.swap (g.ReadsAmong (· ∈ cells))) a ↔
    ∃ b, ReflTransGen (g.ReadsAmong (· ∈ cells)) a b ∧ g.OnCycle (· ∈ cells) b := by
  constructor
  · refine exists_transGen_self_of_not_acc ((List.finite_toSet cells.toList).subset ?_)
    rintro b ⟨c, hbc⟩
    exact Std.ExtTreeSet.mem_toList.mpr hbc.1
  · rintro ⟨b, hab, hround⟩ hends
    exact not_transGen_self_of_acc (acc_of_reflTransGen hends hab) hround

theorem mem_stuck_schedule_iff (hg : g.Sound) : a ∈ (g.schedule cells).stuck ↔
    ∃ b, ReflTransGen (g.ReadsAmong (· ∈ cells)) a b ∧ g.OnCycle (· ∈ cells) b := by
  rw [(schedule_of hg cells).mem_stuck_iff, not_acc_readsAmong_iff, and_iff_right_iff_imp]
  rintro ⟨b, hab, hround⟩
  rcases hab.cases_head with rfl | ⟨c, hac, -⟩
  · exact hround.mem
  · exact hac.1

theorem order?_eq_ok (hg : g.Sound) (hfree : ∀ a, ¬g.OnCycle (· ∈ cells) a) :
    g.order? cells = .ok (g.schedule cells).order ∧
      g.LeastOrder (· ∈ cells) (g.schedule cells).order := by
  have hstuck : (g.schedule cells).stuck = [] := by
    refine List.eq_nil_iff_forall_not_mem.mpr fun a ha => ?_
    obtain ⟨b, -, hround⟩ := (mem_stuck_schedule_iff hg).mp ha
    exact hfree b hround
  refine ⟨?_, leastOrder_schedule hg (fun a ha haa => ?_) fun a => ?_⟩
  · unfold order?
    dsimp only
    rw [hstuck]
    rfl
  · exact hfree a (.single ⟨ha, ha, haa⟩)
  · rw [(schedule_of hg cells).mem a, hstuck, or_iff_left List.not_mem_nil]

/-- A change of the edges from one cell. -/
inductive Change where
  | set (a : Address) (targets : AddressSet)
  | clear (a : Address)

def change (g : Graph) : Change → Graph
  | .set a targets => g.setReads a targets
  | .clear a => g.clearReads a

def ofChanges (changes : List Change) : Graph := changes.foldl change ∅

theorem Sound.change (hg : g.Sound) (c : Change) : (g.change c).Sound := by
  cases c with
  | set a targets => exact hg.setReads a targets
  | clear a => exact hg.clearReads a

theorem sound_ofChanges (changes : List Change) : (ofChanges changes).Sound := by
  unfold ofChanges
  induction changes using List.reverseRecOn with
  | nil => exact sound_empty
  | append_singleton changes c ih =>
    rw [List.foldl_concat]
    exact ih.change c

private def crossed : AddressSet := {⟨0, 0⟩, ⟨0, 1⟩, ⟨0, 2⟩, ⟨1, 0⟩}

end Spreadsheet.Graph
