import Spreadsheet.Proofs.Graph.Deadlock

/-! What the two maps of a graph tell after any changes, also where cells read themselves through others:
which edges there are and how many, which cells are ends of one, and from where a cell can be reached. -/
namespace Spreadsheet.Graph

variable {g : Graph} {a b : Address}

/-! ## Edges as a list -/

theorem mem_edges : (a, b) ∈ g.edges ↔ g.Reads a b := by
  unfold edges Reads readsOf
  simp only [List.mem_flatMap, List.mem_map, Prod.mk.injEq, Std.ExtTreeSet.mem_toList, Prod.exists,
    Std.ExtTreeMap.mem_toList_iff_getElem?_eq_some, Std.ExtTreeMap.getD_eq_getD_getElem?]
  constructor
  · rintro ⟨x, targets, hx, y, hy, rfl, rfl⟩
    rw [hx]
    exact hy
  · intro hb
    cases ha : g.reads[a]? with
    | none => simp [ha] at hb
    | some targets => exact ⟨a, targets, ha, b, by simpa [ha] using hb, rfl, rfl⟩

/-- No edge is listed twice. -/
theorem nodup_edges (g : Graph) : g.edges.Nodup := by
  unfold edges
  rw [List.nodup_flatMap]
  constructor
  · rintro ⟨a, targets⟩ -
    exact (Agenda.nodup_toList targets).map fun x y hxy => (Prod.mk.inj hxy).2
  · refine Std.ExtTreeMap.distinct_keys_toList.imp fun {x y} hne => ?_
    rw [Function.onFun, List.disjoint_left]
    rintro ⟨a, b⟩ hx hy
    obtain ⟨_, -, hxa⟩ := List.mem_map.mp hx
    obtain ⟨_, -, hya⟩ := List.mem_map.mp hy
    have hkeys : x.1 = y.1 := (Prod.mk.inj hxa).1.trans (Prod.mk.inj hya).1.symm
    exact hne (by rw [hkeys, Std.compare_self])

theorem size_eq_length_edges (g : Graph) : g.size = g.edges.length := by
  unfold size edges
  rw [Std.ExtTreeMap.foldl_eq_foldl_toList, List.length_flatMap, List.sum_eq_foldl, List.foldl_map]
  simp only [List.length_map, Std.ExtTreeSet.length_toList]

/-! ## Ends of edges -/

theorem Tight.contains_iff {m : AddressMap AddressSet} (h : Tight m) :
    m.contains a ↔ ∃ b, b ∈ m.getD a ∅ := by
  rw [Std.ExtTreeMap.contains_eq_isSome_getElem?, Std.ExtTreeMap.getD_eq_getD_getElem?]
  cases ha : m[a]? with
  | none => simp
  | some s =>
    obtain ⟨b, hb⟩ := not_forall_not.mp (mt Std.ExtTreeSet.eq_empty_iff_forall_not_mem.mpr (h a s ha))
    exact ⟨fun _ => ⟨b, hb⟩, fun _ => rfl⟩

theorem Sound.contains_iff (h : g.Sound) : g.contains a ↔ ∃ b, g.Reads a b ∨ g.Reads b a := by
  unfold contains
  rw [Bool.or_eq_true, h.tight_reads.contains_iff, h.tight_readBy.contains_iff, exists_or]
  exact or_congr .rfl (exists_congr fun b => h.transposed b a)

/-- The cells that read a cell, directly or through others, without the cell itself. -/
theorem Sound.mem_dependents (h : g.Sound) : b ∈ g.dependents a ↔ b ≠ a ∧ g.ReadsThrough b a := by
  have hsingle : ∀ c : Address, c ∈ ({a} : AddressSet) ↔ c = a := by simp [eq_comm (a := a)]
  unfold dependents
  rw [Std.ExtTreeSet.mem_erase, h.mem_readersThrough]
  simp only [hsingle, exists_eq_left, ne_eq, Std.LawfulEqOrd.compare_eq_iff_eq, eq_comm (a := a)]

/-! ## What the last change of a cell leaves -/

/-- The cell whose edges a change replaces. -/
def Change.cell : Change → Address
  | .set a _ => a
  | .clear a => a

/-- What the cell reads after the change. -/
def Change.targets : Change → AddressSet
  | .set _ targets => targets
  | .clear _ => ∅

theorem change_eq_setReads (g : Graph) (c : Change) : g.change c = g.setReads c.cell c.targets := by
  cases c <;> rfl

/-- The last change of what a cell reads. -/
def lastChange? (changes : List Change) (a : Address) : Option Change :=
  changes.reverse.find? (·.cell = a)

theorem readsOf_ofChanges (changes : List Change) (a : Address) :
    (ofChanges changes).readsOf a = ((lastChange? changes a).map Change.targets).getD ∅ := by
  unfold lastChange? ofChanges
  induction changes using List.reverseRecOn with
  | nil => exact readsOf_empty a
  | append_singleton changes c ih =>
    rw [List.foldl_concat, change_eq_setReads, readsOf_setReads, List.reverse_concat,
      List.find?_cons, ih]
    by_cases hc : c.cell = a
    · simp [hc]
    · simp [hc, Ne.symm hc]

/-- Whatever the changes that a graph was made by, the readers of a cell are those that read it, and no
map holds an empty set; a cell reads what the last change of it says; the edges are told apart and
counted each once; a cell is known just if it is an end of an edge; and the cells that depend on one are
the others from which it is reached along one or more edges, also where it is reached from itself. -/
theorem indices_ofChanges (changes : List Change) :
    let g := ofChanges changes
    (∀ a b, a ∈ g.readersOf b ↔ b ∈ g.readsOf a) ∧
    (Tight g.reads ∧ Tight g.readBy) ∧
    (∀ a, g.readsOf a = ((lastChange? changes a).map Change.targets).getD ∅) ∧
    ((∀ a b, (a, b) ∈ g.edges ↔ b ∈ g.readsOf a) ∧ g.edges.Nodup ∧ g.size = g.edges.length) ∧
    (∀ a, g.contains a ↔ ∃ b, b ∈ g.readsOf a ∨ a ∈ g.readsOf b) ∧
    ∀ a b, b ∈ g.dependents a ↔ b ≠ a ∧ Relation.TransGen (fun x y => y ∈ g.readsOf x) b a := by
  intro g
  have hg : g.Sound := sound_ofChanges changes
  refine ⟨hg.transposed, ⟨hg.tight_reads, hg.tight_readBy⟩, readsOf_ofChanges changes, ?_, ?_, ?_⟩
  · exact ⟨fun _ _ => mem_edges, nodup_edges g, size_eq_length_edges g⟩
  · exact fun _ => hg.contains_iff
  · exact fun _ _ => hg.mem_dependents

end Spreadsheet.Graph
