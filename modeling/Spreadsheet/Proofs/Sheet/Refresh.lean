import Spreadsheet.Proofs.Sheet.History

/-! What edits that are not interrupted leave behind. A cell that no touched cell affects stays as it is;
any other shows what the present values give it, unless it waits behind a cell refused for a cycle. Two
such changes of a sheet, one after the other, make one. -/
namespace Spreadsheet.Sheet

/-- Whether a cell reads one that is refused for a cycle, directly or through others. -/
def Excused (s : Sheet) (a : Address) : Prop := ∃ b, s.graph.ReadsThrough a b ∧ s.Circular b

/-- Whether a cell is touched or reads a touched cell, directly or through others. -/
def Affected (s : Sheet) (touched : AddressSet) (a : Address) : Prop :=
  a ∈ touched ∨ ∃ b ∈ touched, s.graph.ReadsThrough a b

/-- What is left after contents were put into the touched cells. -/
structure Refreshed (touched : AddressSet) (s t : Sheet) : Prop where
  limits : t.limits = s.limits
  readsOf : ∀ a, a ∉ touched → t.graph.readsOf a = s.graph.readsOf a
  kept : ∀ a, ¬t.Affected touched a → t.cells[a]? = s.cells[a]?
  settled : ∀ a, t.Affected touched a → t.Settled a ∨ t.Excused a
  unknown : ∀ a, t.Unknown a → t.cells[a]? = s.cells[a]?

variable {s t u : Sheet} {touched touched' : AddressSet} {a b : Address}

theorem mem_affected (hs : s.graph.Sound) : a ∈ s.affected touched ↔ s.Affected touched a := by
  unfold affected
  rw [Std.ExtTreeSet.mem_union_iff, hs.mem_readersThrough]
  rfl

theorem Affected.of_reads (h : s.Affected touched b) (hab : s.graph.Reads a b) :
    s.Affected touched a := by
  rcases h with hb | ⟨c, hc, hbc⟩
  · exact .inr ⟨b, hb, .single hab⟩
  · exact .inr ⟨c, hc, .head hab hbc⟩

theorem Affected.of_readsThrough (h : s.Affected touched b) (hab : s.graph.ReadsThrough a b) :
    s.Affected touched a := by
  induction hab using Relation.TransGen.head_induction_on with
  | single hab => exact h.of_reads hab
  | head hac _ ih => exact ih.of_reads hac

theorem affected_union :
    s.Affected (touched ∪ touched') a ↔ s.Affected touched a ∨ s.Affected touched' a := by
  unfold Affected
  simp only [Std.ExtTreeSet.mem_union_iff]
  grind

theorem Settled.not_unknown (h : s.Settled a) : ¬s.Unknown a := by
  rintro ⟨c, hc, hunknown⟩
  obtain ⟨v, hv, -⟩ := h c hc
  exact hunknown v hv

theorem settled_of_circular {content : String}
    (h : s.cells[a]? = some ⟨content, .rejected .cycle, .known (.error .cycle)⟩) : s.Settled a := by
  intro c hc
  rw [h] at hc
  cases hc
  exact ⟨.error .cycle, rfl, rfl⟩

namespace Refreshed

section Kept

/-- From a cell that is not affected the same ways lead on as before. -/
theorem readsThrough_iff (h : Refreshed touched s t) (ha : ¬t.Affected touched a) :
    t.graph.ReadsThrough a b ↔ s.graph.ReadsThrough a b := by
  have hreads : ∀ x y, ¬t.Affected touched x → (t.graph.Reads x y ↔ s.graph.Reads x y) := by
    intro x y hx
    unfold Graph.Reads
    rw [h.readsOf x fun hmem => hx (.inl hmem)]
  constructor
  · intro hway
    induction hway using Relation.TransGen.head_induction_on with
    | single hab => exact .single ((hreads _ _ ha).mp hab)
    | head hac _ ih => exact .head ((hreads _ _ ha).mp hac) (ih fun hc => ha (hc.of_reads hac))
  · intro hway
    induction hway using Relation.TransGen.head_induction_on with
    | single hab => exact .single ((hreads _ _ ha).mpr hab)
    | head hac _ ih =>
      have hac' := (hreads _ _ ha).mpr hac
      exact .head hac' (ih fun hc => ha (hc.of_reads hac'))

theorem affected_of_before (h : Refreshed touched' t u) (ha : ¬u.Affected touched' a) :
    u.Affected touched a ↔ t.Affected touched a := by
  unfold Affected
  simp only [h.readsThrough_iff ha]

theorem settled_of_before (h : Refreshed touched' t u) (ht : t.Formed)
    (ha : ¬u.Affected touched' a) (hsettled : t.Settled a) : u.Settled a := by
  intro c hc
  rw [h.kept a ha] at hc
  obtain ⟨v, hv, hvalue⟩ := hsettled c hc
  refine ⟨v, hv, ?_⟩
  rw [← hvalue]
  apply valueOf_congr ht h.limits hc rfl rfl
  intro b hab
  have hab' := (h.readsThrough_iff ha).mpr (.single hab)
  exact h.kept b fun hb => ha (hb.of_readsThrough hab')

theorem excused_of_before (h : Refreshed touched' t u) (ha : ¬u.Affected touched' a)
    (hexcused : t.Excused a) : u.Excused a := by
  obtain ⟨b, hway, c, hc, hcycle⟩ := hexcused
  have hway' := (h.readsThrough_iff ha).mpr hway
  refine ⟨b, hway', c, ?_, hcycle⟩
  rw [h.kept b fun hb => ha (hb.of_readsThrough hway')]
  exact hc

end Kept

theorem refl (s : Sheet) : Refreshed ∅ s s where
  limits := rfl
  readsOf _ _ := rfl
  kept _ _ := rfl
  settled a ha := by
    rcases ha with hmem | ⟨b, hmem, -⟩
    · exact absurd hmem Std.ExtTreeSet.not_mem_empty
    · exact absurd hmem Std.ExtTreeSet.not_mem_empty
  unknown _ _ := rfl

/-- Where a later change leaves a cell alone, it leaves alone whatever the cell reads, so that what the
earlier change has done for the cell still counts. -/
theorem trans (h : Refreshed touched s t) (h' : Refreshed touched' t u) (ht : t.Formed) :
    Refreshed (touched ∪ touched') s u where
  limits := h'.limits.trans h.limits
  readsOf a ha := by
    rw [Std.ExtTreeSet.mem_union_iff, not_or] at ha
    rw [h'.readsOf a ha.2, h.readsOf a ha.1]
  kept a ha := by
    rw [affected_union, not_or] at ha
    rw [h'.kept a ha.2, h.kept a fun haffected => ha.1 ((h'.affected_of_before ha.2).mpr haffected)]
  settled a ha := by
    by_cases ha' : u.Affected touched' a
    · exact h'.settled a ha'
    · have haffected := (affected_union.mp ha).resolve_right ha'
      rcases h.settled a ((h'.affected_of_before ha').mp haffected) with hsettled | hexcused
      · exact .inl (h'.settled_of_before ht ha' hsettled)
      · exact .inr (h'.excused_of_before ha' hexcused)
  unknown a ha := by
    have hcell := h'.unknown a ha
    rw [hcell]
    apply h.unknown a
    obtain ⟨c, hc, hunknown⟩ := ha
    exact ⟨c, hcell ▸ hc, hunknown⟩

end Refreshed

theorem Ended.refreshed {fault : Option Fault} (hend : Ended t touched u fault)
    (hstaged : Staged s touched t) (hs : s.Formed)
    (hfault : ∀ f, fault = some f → f.interrupts = false) : Refreshed touched s u := by
  have ht := hstaged.formed hs
  have hlike := hend.alike ht
  have hreadsOf : ∀ a, a ∉ touched → u.graph.readsOf a = s.graph.readsOf a := by
    intro a ha
    rw [← hlike.graph]
    exact (hstaged.other ha).2
  have hlimits : u.limits = s.limits := hlike.limits.symm.trans hstaged.limits
  cases hend with
  | passed hpass _ =>
    obtain ⟨-, hkept, hsettled⟩ := recalculate_eq_ok ht hpass
    have hmem : ∀ a, a ∈ t.affected touched ↔ u.Affected touched a := by
      intro a
      rw [mem_affected ht.sound]
      unfold Affected
      rw [hlike.graph]
    have hsame : ∀ a, ¬u.Affected touched a → u.cells[a]? = s.cells[a]? := by
      intro a ha
      rw [hkept a fun h => ha ((hmem a).mp h)]
      exact (hstaged.other fun h => ha (.inl h)).1
    refine ⟨hlimits, hreadsOf, hsame, fun a ha => .inl (hsettled a ((hmem a).mpr ha)), ?_⟩
    intro a hunknown
    apply hsame
    intro ha
    exact (hsettled a ((hmem a).mpr ha)).not_unknown hunknown
  | broken _ => exact absurd (hfault _ rfl) (by simp [Fault.interrupts])
  | idle hcircular _ hcells _ _ =>
    have hsame : ∀ a, a ∉ touched → u.cells[a]? = s.cells[a]? := by
      intro a ha
      rw [hcells]
      exact (hstaged.other ha).1
    rw [← hcells] at hcircular
    refine ⟨hlimits, hreadsOf, fun a ha => hsame a fun h => ha (.inl h), ?_, ?_⟩
    · rintro a (ha | ⟨b, hb, hway⟩)
      · obtain ⟨content, hcell⟩ := hcircular a ha
        exact .inl (settled_of_circular hcell)
      · obtain ⟨content, hcell⟩ := hcircular b hb
        exact .inr ⟨b, hway, _, hcell, rfl⟩
    · intro a hunknown
      apply hsame
      intro ha
      obtain ⟨content, hcell⟩ := hcircular a ha
      exact (settled_of_circular hcell).not_unknown hunknown

/-- An edit that is not interrupted refreshes the sheet. -/
theorem Edits.refreshed {fault : Option Fault} (h : Edits s u fault) (hs : s.Formed)
    (hfault : ∀ f, fault = some f → f.interrupts = false) : ∃ touched, Refreshed touched s u := by
  obtain ⟨touched, t, hstaged, hend | ⟨-, hhalted⟩⟩ := h
  · exact ⟨touched, hend.refreshed hstaged hs hfault⟩
  · cases hfault _ hhalted

end Spreadsheet.Sheet
