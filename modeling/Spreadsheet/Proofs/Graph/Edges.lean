import Mathlib.Logic.Relation
import Spreadsheet.Graph.Basic

/-! Edges of a graph as a relation. Changes keep the two directions transposed and never leave an empty
set behind, so a graph is determined by what each cell reads. -/
namespace Spreadsheet.Graph

/-- An edge: the first cell reads the second one. -/
def Reads (g : Graph) (a b : Address) : Prop := b ∈ g.readsOf a

instance (g : Graph) (a b : Address) : Decidable (g.Reads a b) :=
  inferInstanceAs (Decidable (b ∈ g.readsOf a))

/-- A way of one or more edges. -/
def ReadsThrough (g : Graph) : Address → Address → Prop := Relation.TransGen g.Reads

/-- A map that holds no empty set. -/
def Tight (m : AddressMap AddressSet) : Prop := ∀ (a : Address) (s : AddressSet), m[a]? = some s → s ≠ ∅

/-- The two directions agree, and neither map holds an empty set. -/
structure Sound (g : Graph) : Prop where
  transposed : ∀ a b, a ∈ g.readersOf b ↔ g.Reads a b
  tight_reads : Tight g.reads
  tight_readBy : Tight g.readBy

@[simp] theorem readsOf_empty (a : Address) : (∅ : Graph).readsOf a = ∅ :=
  Std.ExtTreeMap.getD_empty

@[simp] theorem readersOf_empty (a : Address) : (∅ : Graph).readersOf a = ∅ :=
  Std.ExtTreeMap.getD_empty

theorem tight_empty : Tight ∅ := by
  intro a s h
  simp at h

theorem sound_empty : Sound ∅ where
  transposed a b := by simp [Reads]
  tight_reads := tight_empty
  tight_readBy := tight_empty

/-! ## Readers of many cells -/

private theorem mem_getD_addReader {reader x b target : Address} {m : AddressMap AddressSet} :
    x ∈ (addReader reader m target).getD b ∅ ↔ x ∈ m.getD b ∅ ∨ x = reader ∧ b = target := by
  unfold addReader
  rw [Std.ExtTreeMap.getD_alter]
  by_cases h : target = b
  · subst h
    simp only [Std.compare_self, ↓reduceIte, Option.getD_some, Std.ExtTreeSet.mem_insert,
      Std.LawfulEqOrd.compare_eq_iff_eq, Std.ExtTreeMap.getD_eq_getD_getElem?]
    grind
  · simp [h, Ne.symm h]

theorem mem_getD_foldl_addReader {reader x b : Address} {targets : List Address}
    {m : AddressMap AddressSet} :
    x ∈ (targets.foldl (addReader reader) m).getD b ∅ ↔
      x ∈ m.getD b ∅ ∨ x = reader ∧ b ∈ targets := by
  induction targets generalizing m with
  | nil => simp
  | cons target targets ih =>
    rw [List.foldl_cons, ih, mem_getD_addReader, List.mem_cons]
    grind

private theorem mem_getD_dropReader {reader x b target : Address} {m : AddressMap AddressSet} :
    x ∈ (dropReader reader m target).getD b ∅ ↔ x ∈ m.getD b ∅ ∧ ¬(x = reader ∧ b = target) := by
  unfold dropReader
  rw [Std.ExtTreeMap.getD_alter]
  by_cases h : target = b
  · subst h
    have herase : x ∈ (m.getD target ∅).erase reader ↔ x ∈ m.getD target ∅ ∧ x ≠ reader := by
      simp only [Std.ExtTreeSet.mem_erase, ne_eq, Std.LawfulEqOrd.compare_eq_iff_eq]
      grind
    simp only [Std.compare_self, ↓reduceIte, ← Std.ExtTreeMap.getD_eq_getD_getElem?, and_true]
    rw [← ne_eq, ← herase]
    split
    · rename_i hempty
      rw [Std.ExtTreeSet.isEmpty_iff.mp hempty]
      rfl
    · rfl
  · simp [h, Ne.symm h]

theorem mem_getD_foldl_dropReader {reader x b : Address} {targets : List Address}
    {m : AddressMap AddressSet} :
    x ∈ (targets.foldl (dropReader reader) m).getD b ∅ ↔
      x ∈ m.getD b ∅ ∧ ¬(x = reader ∧ b ∈ targets) := by
  induction targets generalizing m with
  | nil => simp
  | cons target targets ih =>
    rw [List.foldl_cons, ih, mem_getD_dropReader, List.mem_cons]
    grind

private theorem Tight.addReader {reader target : Address} {m : AddressMap AddressSet} (h : Tight m) :
    Tight (addReader reader m target) := by
  intro a s hs
  unfold Graph.addReader at hs
  rw [Std.ExtTreeMap.getElem?_alter] at hs
  split at hs
  · cases hs
    intro hempty
    have hmem := Std.ExtTreeSet.mem_insert_self (t := (m[target]?.getD ∅)) (k := reader)
    rw [hempty] at hmem
    exact Std.ExtTreeSet.not_mem_empty hmem
  · exact h a s hs

private theorem Tight.dropReader {reader target : Address} {m : AddressMap AddressSet} (h : Tight m) :
    Tight (dropReader reader m target) := by
  intro a s hs
  unfold Graph.dropReader at hs
  rw [Std.ExtTreeMap.getElem?_alter] at hs
  split at hs
  · dsimp only at hs
    split at hs
    · contradiction
    · rename_i hrest
      cases hs
      exact fun hempty => hrest (Std.ExtTreeSet.isEmpty_iff.mpr hempty)
  · exact h a s hs

theorem Tight.foldl {f : AddressMap AddressSet → Address → AddressMap AddressSet}
    (hf : ∀ m target, Tight m → Tight (f m target)) {targets : List Address}
    {m : AddressMap AddressSet} (h : Tight m) : Tight (targets.foldl f m) := by
  induction targets generalizing m with
  | nil => exact h
  | cons target targets ih => exact ih (hf m target h)

/-! ## Replacing the edges from a cell -/

theorem readsOf_setReads (g : Graph) (a x : Address) (targets : AddressSet) :
    (g.setReads a targets).readsOf x = if x = a then targets else g.readsOf x := by
  unfold setReads readsOf
  dsimp only
  split
  · rename_i hempty
    rw [Std.ExtTreeMap.getD_erase, Std.ExtTreeSet.isEmpty_iff.mp hempty]
    simp only [Std.LawfulEqOrd.compare_eq_iff_eq, eq_comm (a := x)]
  · rw [Std.ExtTreeMap.getD_insert]
    simp only [Std.LawfulEqOrd.compare_eq_iff_eq, eq_comm (a := x)]

theorem reads_setReads {g : Graph} {a x b : Address} {targets : AddressSet} :
    (g.setReads a targets).Reads x b ↔ if x = a then b ∈ targets else g.Reads x b := by
  unfold Reads
  rw [readsOf_setReads]
  split <;> rfl

@[simp] theorem readsOf_clearReads (g : Graph) (a x : Address) :
    (g.clearReads a).readsOf x = if x = a then ∅ else g.readsOf x :=
  readsOf_setReads g a x ∅

private theorem mem_readersOf_setReads {g : Graph} {a x b : Address} {targets : AddressSet} :
    x ∈ (g.setReads a targets).readersOf b ↔
      x ∈ g.readersOf b ∧ ¬(x = a ∧ b ∈ g.readsOf a \ targets) ∨
        x = a ∧ b ∈ targets \ g.readsOf a := by
  unfold setReads
  rw [readersOf, mem_getD_foldl_addReader, mem_getD_foldl_dropReader]
  simp only [Std.ExtTreeSet.mem_toList]
  rfl

theorem Sound.setReads {g : Graph} (h : Sound g) (a : Address) (targets : AddressSet) :
    Sound (g.setReads a targets) where
  transposed x b := by
    rw [mem_readersOf_setReads, reads_setReads, h.transposed]
    simp only [Std.ExtTreeSet.mem_diff_iff, Reads]
    by_cases hx : x = a
    · subst hx
      grind
    · simp [hx]
  tight_reads x s hs := by
    unfold Graph.setReads at hs
    dsimp only at hs
    split at hs
    · rw [Std.ExtTreeMap.getElem?_erase] at hs
      split at hs
      · contradiction
      · exact h.tight_reads x s hs
    · rename_i hne
      rw [Std.ExtTreeMap.getElem?_insert] at hs
      split at hs
      · cases hs
        exact fun hempty => hne (Std.ExtTreeSet.isEmpty_iff.mpr hempty)
      · exact h.tight_reads x s hs
  tight_readBy := by
    apply Tight.foldl
    · exact fun m target hm => hm.addReader
    · exact Tight.foldl (fun m target hm => hm.dropReader) h.tight_readBy

theorem Sound.clearReads {g : Graph} (h : Sound g) (a : Address) : Sound (g.clearReads a) :=
  h.setReads a ∅

/-! ## Equality -/

private theorem Tight.ext {m n : AddressMap AddressSet} (hm : Tight m) (hn : Tight n)
    (h : ∀ a, m.getD a ∅ = n.getD a ∅) : m = n := by
  apply Std.ExtTreeMap.ext_getElem?
  intro a
  have ha := h a
  rw [Std.ExtTreeMap.getD_eq_getD_getElem?, Std.ExtTreeMap.getD_eq_getD_getElem?] at ha
  have hma := hm a
  have hna := hn a
  cases hm' : m[a]? <;> cases hn' : n[a]? <;> simp_all

/-- A graph is determined by what each cell reads. -/
theorem Sound.ext {g g' : Graph} (h : Sound g) (h' : Sound g')
    (hreads : ∀ a, g.readsOf a = g'.readsOf a) : g = g' := by
  have hr : g.reads = g'.reads := h.tight_reads.ext h'.tight_reads hreads
  have hb : g.readBy = g'.readBy := by
    apply h.tight_readBy.ext h'.tight_readBy
    intro b
    apply Std.ExtTreeSet.ext_mem
    intro a
    have ht := h.transposed a b
    have ht' := h'.transposed a b
    unfold Reads at ht ht'
    rw [hreads] at ht
    exact ht.trans ht'.symm
  cases g
  cases g'
  simp_all

/-- A cell that reads nothing has no edges to drop. -/
theorem Sound.clearReads_eq_self {g : Graph} (h : Sound g) {a : Address} (ha : g.readsOf a = ∅) :
    g.clearReads a = g := by
  apply (h.clearReads a).ext h
  intro x
  rw [readsOf_clearReads]
  split
  · simp_all
  · rfl

end Spreadsheet.Graph
