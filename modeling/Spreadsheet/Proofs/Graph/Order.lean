import Spreadsheet.Proofs.Address.Rectangle
import Spreadsheet.Proofs.Graph.Schedule

/-! Which of the possible orders of calculation is taken: since the least of the cells that are ready
comes next, it is the least one in the order of lists. -/
namespace Spreadsheet.Graph

/-- Whether a list holds just the given cells, each of them once and after those that it reads. -/
structure Orders (g : Graph) (p : Address → Prop) (l : List Address) : Prop where
  nodup : l.Nodup
  mem : ∀ a, a ∈ l ↔ p a
  forward : l.Pairwise fun a b => ¬g.Reads a b

/-- Whether a list is the least one that orders the given cells. -/
structure LeastOrder (g : Graph) (p : Address → Prop) (l : List Address) : Prop where
  orders : g.Orders p l
  least : ∀ l', g.Orders p l' → l' = l ∨ List.Lex Address.Precedes l l'

variable {g : Graph} {p q : Address → Prop} {l : List Address} {a : Address}

theorem LeastOrder.congr (h : g.LeastOrder p l) (hpq : ∀ a, p a ↔ q a) : g.LeastOrder q l := by
  obtain rfl : p = q := funext fun a => propext (hpq a)
  exact h

/-- The rest of an order orders the rest of its cells. -/
theorem Orders.tail (h : g.Orders p (a :: l)) : g.Orders (fun x => x ≠ a ∧ p x) l where
  nodup := (List.nodup_cons.mp h.nodup).2
  mem x := by
    rw [← h.mem, List.mem_cons]
    have hfresh := (List.nodup_cons.mp h.nodup).1
    grind
  forward := (List.pairwise_cons.mp h.forward).2

/-- The first cell of an order reads none of its cells. -/
theorem Orders.not_reads_head (h : g.Orders p (a :: l)) (hself : ¬g.Reads a a) {b : Address} (hb : p b) :
    ¬g.Reads a b := by
  rcases List.mem_cons.mp ((h.mem b).mpr hb) with rfl | hmem
  · exact hself
  · exact (List.pairwise_cons.mp h.forward).1 b hmem

namespace Agenda

variable {s : Agenda}

/-- A waiting cell that reads no other one is ready. -/
theorem Valid.mem_ready (h : s.Valid g) (ha : a ∈ s.waiting) (hfree : ∀ b ∈ s.waiting, ¬g.Reads a b) :
    a ∈ s.ready := by
  obtain ⟨n, hn⟩ := Option.isSome_iff_exists.mp (Std.ExtTreeMap.mem_iff_isSome_getElem?.mp ha)
  have hzero : s.countWaiting g a = 0 := by
    refine List.countP_eq_zero.mpr fun b hb => ?_
    rw [Std.ExtTreeSet.mem_toList] at hb
    simpa using fun hwaiting => hfree b hwaiting hb
  rw [h.ready, hn, h.count a n hn, hzero]

theorem precedes_of_min? (h : s.ready.min? = some a) {b : Address} (hb : b ∈ s.ready) :
    b = a ∨ a.Precedes b := by
  have hle : (compare a b).isLE := Std.ExtTreeSet.min?_le_of_mem hb (by simp [h])
  cases hcompare : compare a b with
  | lt => exact .inr (Address.compare_eq_lt.mp hcompare)
  | eq => exact .inl (Std.LawfulEqOrd.eq_of_compare hcompare).symm
  | gt =>
    rw [hcompare] at hle
    contradiction

/-- Of all orders of the waiting cells the one that is made is the least. -/
theorem Valid.least (h : s.Valid g) (hg : g.Sound) (hself : ∀ a ∈ s.waiting, ¬g.Reads a a)
    (l : List Address) (hl : g.Orders (· ∈ s.waiting) l) :
    l = (s.run g).order ∨ List.Lex Address.Precedes (s.run g).order l := by
  have hfirst : ∀ b rest, l = b :: rest → b ∈ s.ready := by
    rintro b rest rfl
    have hb := (hl.mem b).mp List.mem_cons_self
    exact h.mem_ready hb fun c hc => hl.not_reads_head (hself b hb) hc
  induction s using Agenda.run.induct g generalizing l with
  | case1 s hmin =>
    left
    rw [Agenda.run, hmin]
    cases l with
    | nil => rfl
    | cons b rest =>
      have hready := hfirst b rest rfl
      rw [Std.ExtTreeSet.min?_eq_none_iff.mp hmin] at hready
      exact absurd hready Std.ExtTreeSet.not_mem_empty
  | case2 s a hmin ha ih =>
    rw [Agenda.run, hmin]
    simp only [ha, ↓reduceDIte]
    cases l with
    | nil => exact absurd ((hl.mem a).mpr ha) List.not_mem_nil
    | cons b rest =>
      rcases precedes_of_min? hmin (hfirst b rest rfl) with rfl | hbefore
      · have hrest : g.Orders (· ∈ (s.take g b).waiting) rest := by
          have htail := hl.tail
          simp only [← mem_take hg] at htail
          exact htail
        have hvalid := h.take hg ha
        have hself' : ∀ c ∈ (s.take g b).waiting, ¬g.Reads c c :=
          fun c hc => hself c ((mem_take hg).mp hc).2
        rcases ih hvalid hself' rest hrest fun c later heq => by
            subst heq
            have hc := (hrest.mem c).mp List.mem_cons_self
            exact hvalid.mem_ready hc fun d hd => hrest.not_reads_head (hself' c hc) hd with
          rfl | hlex
        · exact .inl rfl
        · exact .inr (.cons hlex)
      · exact .inr (.rel hbefore)
  | case3 s a hmin ha =>
    have hzero : s.waiting[a]? = some 0 := (h.ready a).mp (Std.ExtTreeSet.min?_mem hmin)
    exact absurd (Std.ExtTreeMap.mem_iff_isSome_getElem?.mpr (by simp [hzero])) ha

end Agenda

/-- If every cell has a place, the order is the least one that there is. -/
theorem leastOrder_schedule (hg : g.Sound) {cells : AddressSet} (hself : ∀ a ∈ cells, ¬g.Reads a a)
    (hall : ∀ a, a ∈ (g.schedule cells).order ↔ a ∈ cells) :
    g.LeastOrder (· ∈ cells) (g.schedule cells).order where
  orders := ⟨nodup_order_schedule hg cells, hall, forward_order_schedule hg cells⟩
  least l hl := by
    refine (valid_agenda g cells).least hg ?_ l ?_
    · simp only [mem_agenda]
      exact hself
    · simp only [mem_agenda]
      exact hl

/-- The cells are calculated in the least order that there is. -/
theorem Acyclic.leastOrder_schedule (h : Acyclic g) (hg : g.Sound) (cells : AddressSet) :
    g.LeastOrder (· ∈ cells) (g.schedule cells).order :=
  Graph.leastOrder_schedule hg (fun a _ ha => h a (.single ha)) fun _ => h.mem_order_schedule hg

end Spreadsheet.Graph
