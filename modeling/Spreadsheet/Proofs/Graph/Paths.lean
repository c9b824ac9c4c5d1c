import Spreadsheet.Graph.Cycle
import Spreadsheet.Proofs.Graph.Edges

/-! What the two searches along edges find. Both drop the edges of a cell once they are followed, so
their invariants speak of the edges that are left. -/
namespace Spreadsheet.Graph

open Relation (ReflTransGen TransGen)

/-- The edges that a map from cells to cells holds. -/
def Steps (edges : AddressMap AddressSet) (a b : Address) : Prop := b ∈ edges.getD a ∅

theorem steps_erase {edges : AddressMap AddressSet} {a b c : Address} :
    Steps (edges.erase c) a b ↔ a ≠ c ∧ Steps edges a b := by
  unfold Steps
  rw [Std.ExtTreeMap.getD_erase]
  simp only [Std.LawfulEqOrd.compare_eq_iff_eq]
  grind

theorem steps_iff_of_mem {edges : AddressMap AddressSet} {a b : Address} (h : a ∈ edges) :
    Steps edges a b ↔ b ∈ edges[a] := by
  rw [Steps, Std.ExtTreeMap.getD_eq_getD_getElem?, Std.ExtTreeMap.getElem?_eq_some_getElem h]
  rfl

/-- A way either avoids the edges from a cell, or goes on from that cell for the last time. -/
theorem transGen_erase_or {edges : AddressMap AddressSet} {c a b : Address}
    (h : TransGen (Steps edges) a b) :
    TransGen (Steps (edges.erase c)) a b ∨
      ∃ t, Steps edges c t ∧ (t = b ∨ TransGen (Steps (edges.erase c)) t b) := by
  induction h with
  | single hab =>
    rename_i b
    by_cases ha : a = c
    · subst ha
      exact .inr ⟨b, hab, .inl rfl⟩
    · exact .inl (.single (steps_erase.mpr ⟨ha, hab⟩))
  | tail _ hbd ih =>
    rename_i b d _
    by_cases hb : b = c
    · subst hb
      exact .inr ⟨d, hbd, .inl rfl⟩
    · have hstep : Steps (edges.erase c) b d := steps_erase.mpr ⟨hb, hbd⟩
      rcases ih with hway | ⟨t, hct, rfl | hway⟩
      · exact .inl (hway.tail hstep)
      · exact .inr ⟨t, hct, .inr (.single hstep)⟩
      · exact .inr ⟨t, hct, .inr (hway.tail hstep)⟩

theorem transGen_of_erase {edges : AddressMap AddressSet} {c a b : Address}
    (h : TransGen (Steps (edges.erase c)) a b) : TransGen (Steps edges) a b :=
  TransGen.mono (fun _ _ hstep => (steps_erase.mp hstep).2) _ _ h

/-- The ways from a cell are its edges, and the ways that go on from these and do not come back. -/
theorem transGen_iff_of_mem {edges : AddressMap AddressSet} {a b : Address} (h : a ∈ edges) :
    TransGen (Steps edges) a b ↔
      ∃ t ∈ edges[a], t = b ∨ TransGen (Steps (edges.erase a)) t b := by
  constructor
  · intro hway
    rcases transGen_erase_or (c := a) hway with herased | ⟨t, hat, ht⟩
    · obtain ⟨d, had, -⟩ := TransGen.head'_iff.mp herased
      exact absurd rfl (steps_erase.mp had).1
    · exact ⟨t, (steps_iff_of_mem h).mp hat, ht⟩
  · rintro ⟨t, ht, rfl | hway⟩
    · exact .single ((steps_iff_of_mem h).mpr ht)
    · exact .head ((steps_iff_of_mem h).mpr ht) (transGen_of_erase hway)

theorem not_transGen_of_not_mem {edges : AddressMap AddressSet} {a b : Address} (h : a ∉ edges) :
    ¬TransGen (Steps edges) a b := by
  intro hway
  obtain ⟨d, had, -⟩ := TransGen.head'_iff.mp hway
  rw [Steps, Std.ExtTreeMap.getD_eq_fallback h] at had
  exact Std.ExtTreeSet.not_mem_empty had

/-- Whether a goal can be reached from one of some cells. -/
def Within (edges : AddressMap AddressSet) (cells : List Address) (goal : Address) : Prop :=
  ∃ c ∈ cells, TransGen (Steps edges) c goal

/-- Following the edges of a cell, once and for all, leaves the ways from their ends. -/
theorem within_cons_iff {edges : AddressMap AddressSet} {a goal : Address} {cells : List Address}
    (h : a ∈ edges) :
    Within edges (a :: cells) goal ↔
      goal ∈ edges[a] ∨ Within (edges.erase a) (edges[a].toList ++ cells) goal := by
  unfold Within
  simp only [List.mem_cons, List.mem_append, Std.ExtTreeSet.mem_toList, exists_eq_or_imp,
    transGen_iff_of_mem h]
  constructor
  · rintro (⟨t, ht, rfl | hway⟩ | ⟨c, hc, hway⟩)
    · exact .inl ht
    · exact .inr ⟨t, .inl ht, hway⟩
    · rcases transGen_erase_or (c := a) hway with herased | ⟨t, hat, rfl | hgoal⟩
      · exact .inr ⟨c, .inr hc, herased⟩
      · exact .inl ((steps_iff_of_mem h).mp hat)
      · exact .inr ⟨t, .inl ((steps_iff_of_mem h).mp hat), hgoal⟩
  · rintro (ht | ⟨c, hc | hc, hway⟩)
    · exact .inl ⟨goal, ht, .inl rfl⟩
    · exact .inl ⟨c, hc, .inr hway⟩
    · exact .inr ⟨c, hc, transGen_of_erase hway⟩

theorem within_cons_of_not_mem {edges : AddressMap AddressSet} {a goal : Address}
    {cells : List Address} (h : a ∉ edges) :
    Within edges (a :: cells) goal ↔ Within edges cells goal := by
  simp [Within, not_transGen_of_not_mem h]

/-! ## Transitive readers -/

theorem mem_closure {edges : AddressMap AddressSet} {found : AddressSet} {pending : List Address}
    {x : Address} : x ∈ closure edges found pending ↔ x ∈ found ∨ Within edges pending x := by
  induction edges, found, pending using closure.induct with
  | case1 edges found => simp [closure, Within]
  | case2 edges found a pending h ih =>
    rw [closure, dif_pos h, ih, within_cons_iff h, Std.ExtTreeSet.mem_union_iff]
    grind
  | case3 edges found a pending h ih =>
    rw [closure, dif_neg h, ih, within_cons_of_not_mem h]

theorem Sound.steps_readBy {g : Graph} (h : Sound g) :
    Steps g.readBy = Function.swap g.Reads := by
  funext a b
  exact propext (h.transposed b a)

/-- The transitive readers of some cells are the cells from which a way leads to one of them. -/
theorem Sound.mem_readersThrough {g : Graph} (h : Sound g) {cells : AddressSet} {x : Address} :
    x ∈ g.readersThrough cells ↔ ∃ c ∈ cells, g.ReadsThrough x c := by
  rw [readersThrough, mem_closure, Within, h.steps_readBy]
  simp only [Std.ExtTreeSet.not_mem_empty, false_or, Std.ExtTreeSet.mem_toList, ReadsThrough,
    Relation.transGen_swap]

/-! ## Cycles -/

private theorem within_perm {edges : AddressMap AddressSet} {goal : Address}
    {cells cells' : List Address} (h : ∀ c, c ∈ cells ↔ c ∈ cells') :
    Within edges cells goal ↔ Within edges cells' goal := by
  simp [Within, h]

theorem mem_foldl_extend {trail t : Trail} {next : AddressSet} {back : List Trail} :
    t ∈ next.foldl (fun back cell => trail.extend cell :: back) back ↔
      t ∈ back ∨ ∃ c ∈ next, t = trail.extend c := by
  rw [Std.ExtTreeSet.foldl_eq_foldl_toList]
  simp only [← Std.ExtTreeSet.mem_toList]
  generalize next.toList = cells
  induction cells generalizing back with
  | nil => simp
  | cons cell cells ih =>
    rw [List.foldl_cons, ih]
    simp only [List.mem_cons]
    grind

private theorem mem_map_foldl_extend {trail : Trail} {next : AddressSet} {back : List Trail}
    {c : Address} :
    c ∈ (next.foldl (fun back cell => trail.extend cell :: back) back).map Trail.cell ↔
      c ∈ next ∨ c ∈ back.map Trail.cell := by
  simp only [List.mem_map, mem_foldl_extend]
  constructor
  · rintro ⟨t, ht | ⟨b, hb, rfl⟩, rfl⟩
    · exact .inr ⟨t, ht, rfl⟩
    · exact .inl hb
  · rintro (hc | ⟨t, ht, rfl⟩)
    · exact ⟨trail.extend c, .inr ⟨c, hc, rfl⟩, rfl⟩
    · exact ⟨t, .inl ht, rfl⟩

/-- The search for a goal succeeds exactly if a way leads there. -/
theorem isSome_seek {goal : Address} {edges : AddressMap AddressSet} {front back : List Trail}
    {roots : List Address} :
    (seek goal edges front back roots).isSome ↔
      Within edges (front.map Trail.cell ++ (back.map Trail.cell ++ roots)) goal := by
  induction edges, front, back, roots using seek.induct goal with
  | case1 edges trail front back roots h next hgoal =>
    rw [seek, dif_pos h, List.map_cons, List.cons_append, within_cons_iff h]
    simp only [next] at hgoal
    simp [hgoal]
  | case2 edges trail front back roots h next hgoal ih =>
    rw [seek, dif_pos h, List.map_cons, List.cons_append, within_cons_iff h]
    simp only [next] at hgoal ih
    simp only [hgoal, ↓reduceIte, false_or, ih]
    apply within_perm
    intro c
    simp only [List.mem_append, mem_map_foldl_extend, Std.ExtTreeSet.mem_toList]
    grind
  | case3 edges trail front back roots h ih =>
    rw [seek, dif_neg h, ih, List.map_cons, List.cons_append, within_cons_of_not_mem h]
  | case4 edges trail back roots ih =>
    rw [seek, ih]
    apply within_perm
    intro c
    simp only [List.map_reverse, List.map_cons, List.mem_append, List.mem_reverse, List.mem_cons,
      List.map_nil, List.nil_append, List.cons_append]
    grind
  | case5 edges root roots ih =>
    rw [seek, ih]
    simp
  | case6 edges => simp [seek, Within]

/-- Edges from a cell would close a cycle exactly if a way leads back to it from one of their ends. -/
theorem isSome_cyclePath? {g : Graph} {a : Address} {targets : AddressSet} :
    (g.cyclePath? a targets).isSome ↔ ∃ t ∈ targets, ReflTransGen g.Reads t a := by
  have hseek : (seek a g.reads [] [] targets.toList).isSome ↔
      ∃ t ∈ targets, g.ReadsThrough t a := by
    simp only [isSome_seek, Within, List.map_nil, List.nil_append, Std.ExtTreeSet.mem_toList]
    rfl
  unfold cyclePath?
  split
  · rename_i ha
    simp only [Option.isSome_some, true_iff]
    exact ⟨a, ha, .refl⟩
  · rename_i ha
    rw [Option.isSome_map, hseek]
    constructor
    · rintro ⟨t, ht, hway⟩
      exact ⟨t, ht, hway.to_reflTransGen⟩
    · rintro ⟨t, ht, hway⟩
      rcases Relation.reflTransGen_iff_eq_or_transGen.mp hway with heq | hway
      · exact absurd (heq ▸ ht) ha
      · exact ⟨t, ht, hway⟩

/-- No cell reads itself, directly or through others. -/
def Acyclic (g : Graph) : Prop := ∀ a, ¬g.ReadsThrough a a

theorem acyclic_empty : Acyclic ∅ := by
  intro a hway
  obtain ⟨b, hab, -⟩ := TransGen.head'_iff.mp hway
  rw [Reads, readsOf_empty] at hab
  exact Std.ExtTreeSet.not_mem_empty hab

theorem Acyclic.mono {g g' : Graph} (h : Acyclic g) (hreads : ∀ a b, g'.Reads a b → g.Reads a b) :
    Acyclic g' :=
  fun a hway => h a (TransGen.mono hreads _ _ hway)

theorem Acyclic.clearReads {g : Graph} (h : Acyclic g) (a : Address) : Acyclic (g.clearReads a) := by
  apply h.mono
  intro x b hxb
  unfold Graph.clearReads at hxb
  rw [reads_setReads] at hxb
  split at hxb
  · exact absurd hxb Std.ExtTreeSet.not_mem_empty
  · exact hxb

section Avoiding

variable {α : Type} {r : α → α → Prop} {c : α}

/-- A way either never leaves from a given cell, or goes through it. -/
private theorem avoids_or_through {a b : α} (h : TransGen r a b) :
    TransGen (fun x y => x ≠ c ∧ r x y) a b ∨ ReflTransGen r a c ∧ TransGen r c b := by
  induction h with
  | single hab =>
    rename_i b
    by_cases ha : a = c
    · subst ha
      exact .inr ⟨.refl, .single hab⟩
    · exact .inl (.single ⟨ha, hab⟩)
  | tail hway hbd ih =>
    rename_i b d
    by_cases hb : b = c
    · subst hb
      exact .inr ⟨hway.to_reflTransGen, .single hbd⟩
    · rcases ih with havoids | ⟨hac, hcb⟩
      · exact .inl (havoids.tail ⟨hb, hbd⟩)
      · exact .inr ⟨hac, hcb.tail hbd⟩

/-- A way to a cell can be cut where it first arrives there. -/
private theorem avoids_until {a : α} (h : ReflTransGen r a c) :
    ReflTransGen (fun x y => x ≠ c ∧ r x y) a c := by
  induction h using ReflTransGen.head_induction_on with
  | refl => exact .refl
  | @head a b hab _ ih =>
    by_cases ha : a = c
    · subst ha
      exact .refl
    · exact .head ⟨ha, hab⟩ ih

end Avoiding

/-- The search for a cycle tells whether the edges would close one when they are entered. It goes along the
former edges of the cell too, but a way that comes back to the cell can be cut before it uses them. -/
theorem isSome_cyclePath?_iff {g : Graph} {a : Address} {targets : AddressSet} :
    (g.cyclePath? a targets).isSome ↔ (g.setReads a targets).ReadsThrough a a := by
  have hsame : ∀ x y, x ≠ a → ((g.setReads a targets).Reads x y ↔ g.Reads x y) := by
    intro x y hx
    rw [reads_setReads, if_neg hx]
  have hentered : ∀ t, (g.setReads a targets).Reads a t ↔ t ∈ targets := by
    intro t
    rw [reads_setReads, if_pos rfl]
  rw [isSome_cyclePath?]
  constructor
  · rintro ⟨t, ht, hway⟩
    exact .head' ((hentered t).mpr ht)
      (ReflTransGen.mono (fun x y hxy => (hsame x y hxy.1).mpr hxy.2) _ _ (avoids_until hway))
  · intro hround
    obtain ⟨t, hat, hway⟩ := TransGen.head'_iff.mp hround
    exact ⟨t, (hentered t).mp hat,
      ReflTransGen.mono (fun x y hxy => (hsame x y hxy.1).mp hxy.2) _ _ (avoids_until hway)⟩

/-- Edges that close no cycle can be entered. -/
theorem Acyclic.setReads {g : Graph} (h : Acyclic g) {a : Address} {targets : AddressSet}
    (hfree : g.cyclePath? a targets = none) : Acyclic (g.setReads a targets) := by
  have hold : ∀ x y, x ≠ a ∧ (g.setReads a targets).Reads x y → g.Reads x y := by
    rintro x y ⟨hx, hxy⟩
    rwa [reads_setReads, if_neg hx] at hxy
  intro x hway
  rcases avoids_or_through (c := a) hway with havoids | ⟨hxa, hax⟩
  · exact h x (TransGen.mono hold _ _ havoids)
  · have hsome := isSome_cyclePath?_iff.mpr (TransGen.trans_left hax hxa)
    rw [hfree] at hsome
    contradiction

theorem Acyclic.setReads_iff {g : Graph} (h : Acyclic g) {a : Address} {targets : AddressSet} :
    Acyclic (g.setReads a targets) ↔ g.cyclePath? a targets = none := by
  refine ⟨fun hacyclic => ?_, h.setReads⟩
  rw [← Option.not_isSome_iff_eq_none, isSome_cyclePath?_iff]
  exact hacyclic a

end Spreadsheet.Graph
