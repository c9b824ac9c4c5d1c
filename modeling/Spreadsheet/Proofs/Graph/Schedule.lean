import Mathlib.Order.WellFoundedSet
import Spreadsheet.Graph.Schedule
import Spreadsheet.Proofs.Address.Rectangle
import Spreadsheet.Proofs.Graph.Paths

/-! The order of calculation. A cell finds a place in it, after all the cells of the order that it reads,
just if every way from it among the cells to be ordered comes to an end. Without cycles every cell
does. -/
namespace Spreadsheet.Graph

theorem not_reads_of_not_mem {g : Graph} {a b : Address} (h : a ∉ g.reads) : ¬g.Reads a b := by
  unfold Reads readsOf
  rw [Std.ExtTreeMap.getD_eq_fallback h]
  exact Std.ExtTreeSet.not_mem_empty

/-- Only finitely many cells read anything, so without cycles one gets to an end along the edges. -/
theorem Acyclic.wellFounded {g : Graph} (h : Acyclic g) : WellFounded fun b a => g.Reads a b := by
  have hfinite : {a | a ∈ g.reads}.Finite := by
    apply (List.finite_toSet g.reads.keys).subset
    intro a ha
    simpa using ha
  have hstrict : IsStrictOrder Address fun b a => g.ReadsThrough a b :=
    { irrefl := h, trans := fun _ _ _ hab hbc => hbc.trans hab }
  have hwf := hfinite.wellFoundedOn (r := fun b a => g.ReadsThrough a b)
  have hend : ∀ a, a ∉ g.reads → Acc (fun b a => g.Reads a b) a :=
    fun a ha => ⟨a, fun b hab => absurd hab (not_reads_of_not_mem ha)⟩
  refine ⟨fun a => ?_⟩
  by_cases ha : a ∈ g.reads
  · apply hwf.induction ha
    intro b _ ih
    refine ⟨b, fun c hbc => ?_⟩
    by_cases hc : c ∈ g.reads
    · exact ih c hc (.single hbc)
    · exact hend c hc
  · exact hend a ha

/-! ## Agendas -/

namespace Agenda

/-- The number of waiting cells that a cell reads. -/
def countWaiting (g : Graph) (s : Agenda) (x : Address) : Nat :=
  (g.readsOf x).toList.countP (· ∈ s.waiting)

/-- Every waiting cell is counted rightly, and the ready ones are those that wait for nothing. -/
structure Valid (g : Graph) (s : Agenda) : Prop where
  count : ∀ x n, s.waiting[x]? = some n → n = s.countWaiting g x
  ready : ∀ x, x ∈ s.ready ↔ s.waiting[x]? = some 0

theorem getElem?_release (s : Agenda) (reader x : Address) :
    (s.release reader).waiting[x]? =
      if x = reader then s.waiting[x]?.map (· - 1) else s.waiting[x]? := by
  unfold release
  split
  · split <;> simp_all
  · rw [Std.ExtTreeMap.getElem?_modify]
    simp only [Std.LawfulEqOrd.compare_eq_iff_eq, eq_comm (a := x)]
    split <;> simp_all

theorem mem_ready_release (s : Agenda) (reader x : Address) :
    x ∈ (s.release reader).ready ↔ x ∈ s.ready ∨ x = reader ∧ s.waiting[x]? = some 1 := by
  unfold release
  split
  · simp_all
  · dsimp only
    split
    · simp only [Std.ExtTreeSet.mem_insert, Std.LawfulEqOrd.compare_eq_iff_eq]
      grind
    · grind

theorem getElem?_foldl_release {readers : List Address} (hnodup : readers.Nodup) (s : Agenda)
    (x : Address) :
    (readers.foldl release s).waiting[x]? =
      if x ∈ readers then s.waiting[x]?.map (· - 1) else s.waiting[x]? := by
  induction readers generalizing s with
  | nil => simp
  | cons reader readers ih =>
    obtain ⟨hreader, hnodup⟩ := List.nodup_cons.mp hnodup
    rw [List.foldl_cons, ih hnodup, getElem?_release]
    by_cases hx : x = reader
    · subst hx
      simp [hreader]
    · simp [hx]

theorem mem_ready_foldl_release {readers : List Address} (hnodup : readers.Nodup) (s : Agenda)
    (x : Address) :
    x ∈ (readers.foldl release s).ready ↔
      x ∈ s.ready ∨ x ∈ readers ∧ s.waiting[x]? = some 1 := by
  induction readers generalizing s with
  | nil => simp
  | cons reader readers ih =>
    obtain ⟨hreader, hnodup⟩ := List.nodup_cons.mp hnodup
    rw [List.foldl_cons, ih hnodup, getElem?_release, mem_ready_release]
    by_cases hx : x = reader
    · subst hx
      simp [hreader]
    · simp [hx]

theorem nodup_toList (cells : AddressSet) : cells.toList.Nodup := by
  apply cells.distinct_toList.imp
  intro a b hab heq
  exact hab (by rw [heq, Std.compare_self])

variable {g : Graph} {s : Agenda} {a x : Address}

/-- A cell that is scheduled no longer waits, and its readers wait for one cell less. -/
theorem getElem?_take (hg : g.Sound) :
    (s.take g a).waiting[x]? =
      if x = a then none
      else if g.Reads x a then s.waiting[x]?.map (· - 1) else s.waiting[x]? := by
  unfold take
  rw [getElem?_foldl_release (nodup_toList _), Std.ExtTreeMap.getElem?_erase]
  simp only [Std.ExtTreeSet.mem_toList, hg.transposed, Std.LawfulEqOrd.compare_eq_iff_eq,
    eq_comm (a := a)]
  split <;> split <;> simp

theorem mem_take (hg : g.Sound) : x ∈ (s.take g a).waiting ↔ x ≠ a ∧ x ∈ s.waiting := by
  rw [Std.ExtTreeMap.mem_iff_isSome_getElem?, Std.ExtTreeMap.mem_iff_isSome_getElem?,
    getElem?_take hg]
  split
  · simp_all
  · split <;> simp_all

theorem mem_ready_take (hg : g.Sound) :
    x ∈ (s.take g a).ready ↔ x ≠ a ∧ (x ∈ s.ready ∨ g.Reads x a ∧ s.waiting[x]? = some 1) := by
  unfold take
  rw [mem_ready_foldl_release (nodup_toList _), Std.ExtTreeMap.getElem?_erase]
  simp only [Std.ExtTreeSet.mem_toList, hg.transposed, Std.LawfulEqOrd.compare_eq_iff_eq,
    Std.ExtTreeSet.mem_erase, eq_comm (a := a)]
  grind

private theorem countP_without {p : Address → Bool} {cells : List Address} (hnodup : cells.Nodup)
    (ha : p a) :
    cells.countP (fun b => b ≠ a && p b) = cells.countP p - if a ∈ cells then 1 else 0 := by
  induction cells with
  | nil => rfl
  | cons b cells ih =>
    obtain ⟨hb, hnodup⟩ := List.nodup_cons.mp hnodup
    have hpos : a ∈ cells → 0 < cells.countP p := fun h => List.countP_pos_iff.mpr ⟨a, h, ha⟩
    rw [List.countP_cons, List.countP_cons, ih hnodup]
    grind

theorem countWaiting_take (hg : g.Sound) (ha : a ∈ s.waiting) :
    (s.take g a).countWaiting g x = s.countWaiting g x - if g.Reads x a then 1 else 0 := by
  have hwithout := countP_without (p := fun b => decide (b ∈ s.waiting)) (a := a)
    (nodup_toList (g.readsOf x)) (decide_eq_true ha)
  simp only [Std.ExtTreeSet.mem_toList] at hwithout
  refine Eq.trans ?_ hwithout
  apply List.countP_congr
  intro b _
  simp [mem_take hg]

/-- A cell that reads a waiting cell is counted at least once. -/
theorem Valid.pos (h : s.Valid g) (ha : a ∈ s.waiting) (hxa : g.Reads x a) {n : Nat}
    (hn : s.waiting[x]? = some n) : 0 < n := by
  rw [h.count x n hn]
  exact List.countP_pos_iff.mpr ⟨a, Std.ExtTreeSet.mem_toList.mpr hxa, decide_eq_true ha⟩

theorem Valid.take (h : s.Valid g) (hg : g.Sound) (ha : a ∈ s.waiting) : (s.take g a).Valid g where
  count x n hn := by
    rw [getElem?_take hg] at hn
    rw [countWaiting_take hg ha]
    split at hn
    · contradiction
    · split at hn
      · rename_i hxa
        obtain ⟨m, hm, rfl⟩ := Option.map_eq_some_iff.mp hn
        rw [if_pos hxa, h.count x m hm]
      · rename_i hxa
        rw [if_neg hxa, h.count x n hn]
        rfl
  ready x := by
    rw [mem_ready_take hg, getElem?_take hg, h.ready]
    cases hx : s.waiting[x]? with
    | none => simp
    | some n =>
      have hpos : g.Reads x a → 0 < n := fun hxa => h.pos ha hxa hx
      by_cases hxa : g.Reads x a
      · have hn := hpos hxa
        simp [hxa]
        grind
      · simp [hxa]

end Agenda

/-! ## Schedules -/

/-- An edge between two of the given cells. -/
def ReadsAmong (g : Graph) (p : Address → Prop) (a b : Address) : Prop := p a ∧ p b ∧ g.Reads a b

/-- A cell that reads none of the given cells can be left out when ways among them are to end. -/
theorem acc_readsAmong_of_without {g : Graph} {p q : Address → Prop} {a x : Address}
    (hfree : ∀ b, p b → ¬g.Reads a b) (hq : ∀ x, p x → x ≠ a → q x)
    (h : Acc (Function.swap (g.ReadsAmong q)) x) : Acc (Function.swap (g.ReadsAmong p)) x := by
  have hend : Acc (Function.swap (g.ReadsAmong p)) a :=
    ⟨a, fun b hab => absurd hab.2.2 (hfree b hab.2.1)⟩
  induction h with
  | intro x _ ih =>
    by_cases hx : x = a
    · exact hx ▸ hend
    · refine ⟨x, fun b hxb => ?_⟩
      by_cases hb : b = a
      · exact hb ▸ hend
      · exact ih b ⟨hq x hxb.1 hx, hq b hxb.2.1 hb, hxb.2.2⟩

/-- What scheduling makes of the waiting cells: no cell comes twice, none before one that it reads, and
no way among the waiting cells goes on for ever from a cell that has a place. Those without a place read
one another. -/
structure Schedule.Of (g : Graph) (waiting : Address → Prop) (r : Schedule) : Prop where
  nodup : r.order.Nodup
  forward : r.order.Pairwise fun a b => ¬g.Reads a b
  mem : ∀ x, waiting x ↔ x ∈ r.order ∨ x ∈ r.stuck
  stuck : ∀ x ∈ r.stuck, ∃ b ∈ r.stuck, g.Reads x b
  settled : ∀ x ∈ r.order, Acc (Function.swap (g.ReadsAmong waiting)) x
  ascending : r.stuck.Pairwise Address.Precedes

/-- The cells without a place are those from which one can go on for ever. -/
theorem Schedule.Of.mem_stuck_iff {g : Graph} {waiting : Address → Prop} {r : Schedule}
    (h : r.Of g waiting) {x : Address} :
    x ∈ r.stuck ↔ waiting x ∧ ¬Acc (Function.swap (g.ReadsAmong waiting)) x := by
  constructor
  · intro hx
    refine ⟨(h.mem x).mpr (.inr hx), fun hend => ?_⟩
    induction hend with
    | intro x _ ih =>
      obtain ⟨b, hb, hxb⟩ := h.stuck x hx
      exact ih b ⟨(h.mem x).mpr (.inr hx), (h.mem b).mpr (.inr hb), hxb⟩ hb
  · rintro ⟨hx, hendless⟩
    exact ((h.mem x).mp hx).resolve_left fun hplace => hendless (h.settled x hplace)

theorem Agenda.Valid.run {g : Graph} {s : Agenda} (h : s.Valid g) (hg : g.Sound) :
    (s.run g).Of g (· ∈ s.waiting) := by
  induction s using Agenda.run.induct g with
  | case1 s hmin =>
    rw [Agenda.run, hmin]
    refine ⟨List.nodup_nil, .nil, fun x => by simp, fun x hx => ?_, by simp,
      s.waiting.ordered_keys.imp Address.compare_eq_lt.mp⟩
    rw [Std.ExtTreeMap.mem_keys, Std.ExtTreeMap.mem_iff_isSome_getElem?] at hx
    obtain ⟨n, hn⟩ := Option.isSome_iff_exists.mp hx
    have hready : n ≠ 0 := by
      rintro rfl
      have hmem := (h.ready x).mpr hn
      rw [Std.ExtTreeSet.min?_eq_none_iff.mp hmin] at hmem
      exact Std.ExtTreeSet.not_mem_empty hmem
    rw [h.count x n hn] at hready
    obtain ⟨b, hb, hwaiting⟩ := List.countP_pos_iff.mp (Nat.pos_of_ne_zero hready)
    exact ⟨b, by simpa using hwaiting, by simpa [Reads] using hb⟩
  | case2 s a hmin ha ih =>
    have hzero : s.waiting[a]? = some 0 := (h.ready a).mp (Std.ExtTreeSet.min?_mem hmin)
    have hfree : ∀ b ∈ s.waiting, ¬g.Reads a b :=
      fun b hb hab => Nat.lt_irrefl 0 (h.pos hb hab hzero)
    have hrest := ih (h.take hg ha)
    have hmem : ∀ x, x ∈ (Agenda.run g (s.take g a)).order → x ≠ a ∧ x ∈ s.waiting :=
      fun x hx => (Agenda.mem_take hg).mp ((hrest.mem x).mpr (.inl hx))
    rw [Agenda.run, hmin]
    simp only [ha, ↓reduceDIte]
    refine ⟨List.nodup_cons.mpr ⟨fun hx => (hmem a hx).1 rfl, hrest.nodup⟩,
      List.pairwise_cons.mpr ⟨fun b hb => hfree b (hmem b hb).2, hrest.forward⟩, fun x => ?_,
      hrest.stuck, fun x hx => ?_, hrest.ascending⟩
    · rw [List.mem_cons, or_assoc, ← hrest.mem x, Agenda.mem_take hg]
      grind
    · rcases List.mem_cons.mp hx with rfl | hx
      · exact ⟨x, fun b hxb => absurd hxb.2.2 (hfree b hxb.2.1)⟩
      · exact acc_readsAmong_of_without hfree
          (fun y hy hya => (Agenda.mem_take hg).mpr ⟨hya, hy⟩) (hrest.settled x hx)
  | case3 s a hmin ha =>
    have hzero : s.waiting[a]? = some 0 := (h.ready a).mp (Std.ExtTreeSet.min?_mem hmin)
    exact absurd (Std.ExtTreeMap.mem_iff_isSome_getElem?.mpr (by simp [hzero])) ha

theorem countReads_eq (g : Graph) (cells : AddressSet) (a : Address) :
    g.countReads cells a = (g.readsOf a).toList.countP (· ∈ cells) := by
  unfold countReads
  rw [Std.ExtTreeSet.foldl_eq_foldl_toList]
  have hfold : ∀ (targets : List Address) (n : Nat),
      targets.foldl (fun count b => if b ∈ cells then count + 1 else count) n =
        n + targets.countP (· ∈ cells) := by
    intro targets
    induction targets with
    | nil => simp
    | cons b targets ih =>
      intro n
      rw [List.foldl_cons, ih, List.countP_cons]
      split <;> simp_all
      omega
  rw [hfold, Nat.zero_add]

theorem getElem?_agenda (g : Graph) (cells : AddressSet) (x : Address) :
    (g.agenda cells).waiting[x]? = if x ∈ cells then some (g.countReads cells x) else none := by
  unfold agenda
  dsimp only
  rw [Std.ExtTreeSet.foldl_eq_foldl_toList]
  have hfold : ∀ (targets : List Address) (m : AddressMap Nat),
      (targets.foldl (fun waiting a => waiting.insert a (g.countReads cells a)) m)[x]? =
        if x ∈ targets then some (g.countReads cells x) else m[x]? := by
    intro targets
    induction targets with
    | nil => simp
    | cons b targets ih =>
      intro m
      rw [List.foldl_cons, ih, Std.ExtTreeMap.getElem?_insert]
      simp only [Std.LawfulEqOrd.compare_eq_iff_eq, List.mem_cons]
      grind
  rw [hfold, Std.ExtTreeMap.getElem?_empty]
  simp only [Std.ExtTreeSet.mem_toList]

theorem mem_agenda {g : Graph} {cells : AddressSet} {x : Address} :
    x ∈ (g.agenda cells).waiting ↔ x ∈ cells := by
  rw [Std.ExtTreeMap.mem_iff_isSome_getElem?, getElem?_agenda]
  split <;> simp_all

theorem valid_agenda (g : Graph) (cells : AddressSet) : (g.agenda cells).Valid g where
  count x n hn := by
    rw [getElem?_agenda] at hn
    split at hn
    · cases hn
      rw [countReads_eq]
      apply List.countP_congr
      intro b _
      simp [mem_agenda]
    · contradiction
  ready x := by
    have hx := getElem?_agenda g cells x
    unfold agenda at hx ⊢
    dsimp only at hx ⊢
    rw [Std.ExtTreeSet.mem_filter]
    grind

/-- What scheduling makes of a set of cells. -/
theorem schedule_of {g : Graph} (hg : g.Sound) (cells : AddressSet) :
    (g.schedule cells).Of g (· ∈ cells) := by
  have hof := (valid_agenda g cells).run hg
  simp only [mem_agenda] at hof
  exact hof

/-- Without cycles every cell of a set has a place in its order. -/
theorem Acyclic.mem_order_schedule {g : Graph} (h : Acyclic g) (hg : g.Sound) {cells : AddressSet}
    {x : Address} : x ∈ (g.schedule cells).order ↔ x ∈ cells := by
  have hof := schedule_of hg cells
  have hstuck : x ∉ (g.schedule cells).stuck := fun hx =>
    (hof.mem_stuck_iff.mp hx).2 (Subrelation.accessible (fun hab => hab.2.2) (h.wellFounded.apply x))
  rw [hof.mem x, or_iff_left hstuck]

theorem nodup_order_schedule {g : Graph} (hg : g.Sound) (cells : AddressSet) :
    (g.schedule cells).order.Nodup := (schedule_of hg cells).nodup

/-- No cell comes before one that it reads. -/
theorem forward_order_schedule {g : Graph} (hg : g.Sound) (cells : AddressSet) :
    (g.schedule cells).order.Pairwise fun a b => ¬g.Reads a b := (schedule_of hg cells).forward

end Spreadsheet.Graph
