import Spreadsheet.Proofs.Formula.Scope
import Spreadsheet.Proofs.Graph.Schedule
import Spreadsheet.Proofs.Sheet.Structure

/-! What a pass over some cells does. If it comes to its end, each of them shows the value that the
others give it, since no cell is calculated before one that it reads. Without cycles there is only one
way for all cells to do so. -/
namespace Spreadsheet.Sheet

/-- Whether a cell, if it is occupied, shows what the present values of the others give it. -/
def Settled (s : Sheet) (a : Address) : Prop :=
  ∀ c, s.cells[a]? = some c → ∃ v, c.result = .known v ∧ s.valueOf c = .ok v

theorem known_of_not_unknown {s : Sheet} {a : Address} (h : ¬s.Unknown a) {c : Cell}
    (hc : s.cells[a]? = some c) : ∃ v, c.result = .known v := by
  by_contra hnone
  exact h ⟨c, hc, fun v hv => hnone ⟨v, hv⟩⟩

theorem seen_congr {s t : Sheet} {a : Address} (h : t.cells[a]? = s.cells[a]?) :
    t.seen a = s.seen a := by
  unfold seen
  rw [h]

/-- The value of a cell depends on no cells but those it reads. -/
theorem valueOf_congr {s t : Sheet} (hs : s.Formed) (hlimits : t.limits = s.limits) {a : Address}
    {c c' : Cell} (hc : s.cells[a]? = some c) (hcontent : c'.content = c.content)
    (hkind : c'.kind = c.kind) (hreads : ∀ b, s.graph.Reads a b → t.cells[b]? = s.cells[b]?) :
    t.valueOf c' = s.valueOf c := by
  unfold valueOf
  rw [hcontent, hkind]
  cases hk : c.kind with
  | constant => rfl
  | rejected reason => rfl
  | formula f =>
    have hscope : t.scope.bounds = s.scope.bounds := by
      unfold scope bounds
      rw [hlimits]
    have hprecision : t.scope.precision = s.scope.precision := by
      unfold scope precision
      rw [hlimits]
    have hform := form?_of_getElem? hc
    have htargets : s.graph.readsOf a = f.addresses s.bounds := by
      apply hs.reads
      rw [hform, hk]
      rfl
    apply Formula.evaluate_congr hscope hprecision
    intro b hb
    rw [hscope] at hb
    apply seen_congr
    apply hreads
    unfold Graph.Reads
    rw [htargets]
    exact hb

/-! ## One cell -/

theorem calculate_cases (s : Sheet) (a : Address) :
    (s.cells[a]? = none ∧ s.calculate a = .ok s) ∨
      ∃ c, s.cells[a]? = some c ∧
        ((∃ v, s.valueOf c = .ok v ∧
            s.calculate a = .ok { s with cells := s.cells.insert a { c with result := .known v } }) ∨
          ∃ fault, s.valueOf c = .error fault ∧ s.calculate a = .error fault) := by
  unfold calculate
  cases hc : s.cells[a]? with
  | none => exact .inl ⟨rfl, rfl⟩
  | some c =>
    refine .inr ⟨c, rfl, ?_⟩
    dsimp only
    cases hv : s.valueOf c with
    | ok v => exact .inl ⟨v, rfl, rfl⟩
    | error fault => exact .inr ⟨fault, rfl, rfl⟩

theorem alike_of_known {s : Sheet} {a : Address} {c : Cell} (hc : s.cells[a]? = some c)
    (result : Cell.Result) :
    Alike s { s with cells := s.cells.insert a { c with result } } where
  limits := rfl
  graph := rfl
  form? x := by
    have hinsert := form?_insert (s := s) (a := a)
      (t := { s with cells := s.cells.insert a { c with result } }) rfl x
    rw [hinsert]
    split
    · rename_i hx
      rw [hx, form?_of_getElem? hc]
    · rfl

theorem calculate_eq_ok {s t : Sheet} {a : Address} (h : s.calculate a = .ok t) :
    Alike s t ∧ (∀ x, x ≠ a → t.cells[x]? = s.cells[x]?) ∧
      ∀ c, s.cells[a]? = some c →
        ∃ v, s.valueOf c = .ok v ∧ t.cells[a]? = some { c with result := .known v } := by
  rcases calculate_cases s a with ⟨hc, heq⟩ | ⟨c, hc, ⟨v, hv, heq⟩ | ⟨fault, -, heq⟩⟩
  · rw [heq] at h
    cases h
    exact ⟨.refl s, fun _ _ => rfl, fun c hc' => by rw [hc] at hc'; contradiction⟩
  · rw [heq] at h
    cases h
    refine ⟨alike_of_known hc _, fun x hx => ?_, fun c' hc' => ?_⟩
    · rw [Std.ExtTreeMap.getElem?_insert, if_neg]
      rw [Std.LawfulEqOrd.compare_eq_iff_eq]
      exact Ne.symm hx
    · rw [hc] at hc'
      cases hc'
      exact ⟨v, hv, Std.ExtTreeMap.getElem?_insert_self⟩
  · rw [heq] at h
    contradiction

/-! ## Cells one after the other -/

/-- The sheet after cells were calculated one after the other. -/
def calculateAll (s : Sheet) (order : List Address) : Except Broken Sheet :=
  (Pass.goThrough ⟨s, 0⟩ order).map Pass.sheet

/-- How many errors came up before makes no difference to the sheet. -/
theorem sheet_goThrough (p : Pass) (order : List Address) :
    (p.goThrough order).map Pass.sheet = p.sheet.calculateAll order := by
  suffices ∀ (s : Sheet) (errors errors' : Nat), (Pass.goThrough ⟨s, errors⟩ order).map Pass.sheet =
      (Pass.goThrough ⟨s, errors'⟩ order).map Pass.sheet from this p.sheet p.errors 0
  induction order with
  | nil => exact fun _ _ _ => rfl
  | cons a rest ih =>
    intro s errors errors'
    unfold Pass.goThrough
    dsimp only
    cases s.calculate a with
    | ok t => exact ih t _ _
    | error fault => rfl

theorem calculateAll_cons (s : Sheet) (a : Address) (rest : List Address) :
    s.calculateAll (a :: rest) =
      match s.calculate a with
      | .ok s => s.calculateAll rest
      | .error fault => .error ⟨rest.foldl postpone (s.breakOff a), fault⟩ := by
  conv => lhs; unfold calculateAll Pass.goThrough
  dsimp only
  cases s.calculate a with
  | ok t => exact sheet_goThrough ..
  | error fault => rfl

/-- A pass in an order in which no cell comes before one that it reads. -/
theorem calculateAll_eq_ok {s t : Sheet} (hs : s.Formed) {order : List Address}
    (hnodup : order.Nodup) (hforward : order.Pairwise fun a b => ¬s.graph.Reads a b)
    (h : s.calculateAll order = .ok t) :
    Alike s t ∧ (∀ x, x ∉ order → t.cells[x]? = s.cells[x]?) ∧ ∀ x ∈ order, t.Settled x := by
  induction order generalizing s with
  | nil =>
    cases h
    exact ⟨.refl s, fun _ _ => rfl, by simp⟩
  | cons a rest ih =>
    obtain ⟨hrest, hnodup⟩ := List.nodup_cons.mp hnodup
    obtain ⟨hafter, hforward⟩ := List.pairwise_cons.mp hforward
    rw [calculateAll_cons] at h
    split at h
    · rename_i u hu
      obtain ⟨hlike, hothers, hvalue⟩ := calculate_eq_ok hu
      obtain ⟨hlike', hkept, hsettled⟩ :=
        ih (hlike.formed hs) hnodup (hlike.graph ▸ hforward) h
      refine ⟨hlike.trans hlike', ?_, ?_⟩
      · intro x hx
        rw [List.mem_cons, not_or] at hx
        rw [hkept x hx.2, hothers x hx.1]
      · intro x hx
        rcases List.mem_cons.mp hx with rfl | hx
        · intro c hc
          rw [hkept x hrest] at hc
          -- what the cell reads is neither the cell itself nor calculated after it
          have hreads : ∀ b, s.graph.Reads x b → t.cells[b]? = s.cells[b]? := by
            intro b hb
            have hself : b ≠ x := by
              rintro rfl
              exact hs.acyclic b (.single hb)
            rw [hkept b fun hmem => hafter b hmem hb, hothers b hself]
          have hoccupied : x ∈ s.cells := by
            rw [hlike.mem_cells, Std.ExtTreeMap.mem_iff_isSome_getElem?, hc]
            rfl
          obtain ⟨c₀, hc₀⟩ := Option.isSome_iff_exists.mp
            (Std.ExtTreeMap.mem_iff_isSome_getElem?.mp hoccupied)
          obtain ⟨v, hv, hcell⟩ := hvalue c₀ hc₀
          rw [hc] at hcell
          cases hcell
          refine ⟨v, rfl, ?_⟩
          rw [← hv]
          exact valueOf_congr hs (hlike.trans hlike').limits.symm hc₀ rfl rfl hreads
        · exact hsettled x hx
    · contradiction

theorem alike_reconsider (f : Cell.Result → Cell.Result) (s : Sheet) (a : Address) :
    Alike s (s.reconsider f a) where
  limits := rfl
  graph := rfl
  form? x := by
    unfold reconsider form?
    rw [Std.ExtTreeMap.getElem?_modify]
    split
    · rename_i hax
      rw [Std.LawfulEqOrd.eq_of_compare hax, Option.map_map]
      rfl
    · rfl

theorem unknown_reconsider {f : Cell.Result → Cell.Result} (hf : ∀ r v, f r ≠ .known v) {s : Sheet}
    {a x : Address} (h : s.Unknown x ∨ x = a ∧ a ∈ s.cells) : (s.reconsider f a).Unknown x := by
  unfold Unknown reconsider
  rw [Std.ExtTreeMap.getElem?_modify]
  by_cases hax : a = x
  · subst hax
    have hoccupied : a ∈ s.cells := by
      rcases h with ⟨c, hc, -⟩ | ⟨-, hmem⟩
      · rw [Std.ExtTreeMap.mem_iff_isSome_getElem?, hc]
        rfl
      · exact hmem
    obtain ⟨c, hc⟩ := Option.isSome_iff_exists.mp
      (Std.ExtTreeMap.mem_iff_isSome_getElem?.mp hoccupied)
    rw [if_pos Std.compare_self, hc]
    exact ⟨_, rfl, fun v => hf c.result v⟩
  · rw [if_neg (by rwa [Std.LawfulEqOrd.compare_eq_iff_eq])]
    rcases h with ⟨c, hc, hv⟩ | ⟨heq, -⟩
    · exact ⟨c, hc, hv⟩
    · exact absurd heq.symm hax

theorem foldl_postpone (order : List Address) {s : Sheet} {a : Address} (h : s.Unknown a) :
    Alike s (order.foldl postpone s) ∧ (order.foldl postpone s).Unknown a := by
  induction order generalizing s with
  | nil => exact ⟨.refl s, h⟩
  | cons b order ih =>
    have hb : (s.postpone b).Unknown a := unknown_reconsider (fun _ _ => by simp) (.inl h)
    obtain ⟨hlike, hunknown⟩ := ih hb
    exact ⟨(alike_reconsider _ s b).trans hlike, hunknown⟩

/-- A pass that breaks off leaves a cell without a value. -/
theorem calculateAll_eq_error {s : Sheet} {order : List Address} {broken : Broken}
    (h : s.calculateAll order = .error broken) :
    Alike s broken.sheet ∧ ∃ a, broken.sheet.Unknown a := by
  induction order generalizing s with
  | nil => contradiction
  | cons a rest ih =>
    rw [calculateAll_cons] at h
    split at h
    · rename_i u hu
      obtain ⟨hlike, hunknown⟩ := ih h
      exact ⟨(calculate_eq_ok hu).1.trans hlike, hunknown⟩
    · rename_i fault hfault
      have hoccupied : a ∈ s.cells := by
        rcases calculate_cases s a with ⟨-, heq⟩ | ⟨c, hc, -⟩
        · rw [heq] at hfault
          contradiction
        · rw [Std.ExtTreeMap.mem_iff_isSome_getElem?, hc]
          rfl
      have hbroken : (s.breakOff a).Unknown a :=
        unknown_reconsider (fun _ _ => by simp) (.inr ⟨rfl, hoccupied⟩)
      obtain ⟨hlike, hunknown⟩ := foldl_postpone rest hbroken
      cases h
      exact ⟨(alike_reconsider _ s a).trans hlike, a, hunknown⟩

/-! ## Passes -/

section Pass

variable {s : Sheet} {cells : AddressSet}

theorem recalculate_eq (s : Sheet) (cells : AddressSet) :
    s.recalculate cells =
      let order := (s.graph.schedule (cells.filter fun a => s.cells.contains a)).order
      (s.calculateAll order).map fun calculated => { calculated with recalculated := order } := by
  unfold recalculate pass calculateAll
  dsimp only
  cases Pass.goThrough ⟨s, 0⟩ _ <;> rfl

theorem mem_occupied {x : Address} :
    x ∈ cells.filter (fun a => s.cells.contains a) ↔ x ∈ cells ∧ x ∈ s.cells := by
  rw [Std.ExtTreeSet.mem_filter]
  simp [Std.ExtTreeSet.get_eq]

theorem recalculate_eq_ok {t : Sheet} (hs : s.Formed) (h : s.recalculate cells = .ok t) :
    Alike s t ∧ (∀ x, x ∉ cells → t.cells[x]? = s.cells[x]?) ∧ ∀ x ∈ cells, t.Settled x := by
  rw [recalculate_eq] at h
  obtain ⟨u, hu, rfl⟩ := map_eq_ok.mp h
  obtain ⟨hlike, hkept, hsettled⟩ := calculateAll_eq_ok hs (Graph.nodup_order_schedule hs.sound _)
    (Graph.forward_order_schedule hs.sound _) hu
  simp only [hs.acyclic.mem_order_schedule hs.sound, mem_occupied] at hkept hsettled
  refine ⟨⟨hlike.limits, hlike.graph, hlike.form?⟩, fun x hx => ?_, fun x hx c hc => ?_⟩
  · exact hkept x fun ⟨hmem, _⟩ => hx hmem
  · have hoccupied : x ∈ s.cells := by
      rw [hlike.mem_cells, Std.ExtTreeMap.mem_iff_isSome_getElem?, hc]
      rfl
    exact hsettled x ⟨hx, hoccupied⟩ c hc

theorem recalculate_eq_error {broken : Broken} (h : s.recalculate cells = .error broken) :
    Alike s broken.sheet ∧ ∃ a, broken.sheet.Unknown a := by
  rw [recalculate_eq] at h
  exact calculateAll_eq_error (map_eq_error.mp h)

theorem mem_foldl_insert {items : List Address} {x : Address} :
    x ∈ items.foldl (fun (found : AddressSet) a => found.insert a) cells ↔ x ∈ cells ∨ x ∈ items := by
  induction items generalizing cells with
  | nil => simp
  | cons a items ih =>
    rw [List.foldl_cons, ih, Std.ExtTreeSet.mem_insert, Std.LawfulEqOrd.compare_eq_iff_eq,
      List.mem_cons]
    grind

/-- All occupied cells affect no others. -/
theorem affected_occupied (hs : s.Formed) :
    s.affected (s.cells.keys.foldl .insert ∅) = s.cells.keys.foldl .insert ∅ := by
  apply Std.ExtTreeSet.ext_mem
  intro x
  unfold affected
  rw [Std.ExtTreeSet.mem_union_iff, or_iff_left_iff_imp, hs.sound.mem_readersThrough]
  rintro ⟨b, -, hway⟩
  obtain ⟨c, hread, -⟩ := Relation.TransGen.head'_iff.mp hway
  refine mem_foldl_insert.mpr (.inr ?_)
  rw [Std.ExtTreeMap.mem_keys]
  by_contra hvacant
  exact hs.not_reads_of_vacant (form?_eq_none.mpr hvacant) hread

end Pass

/-! ## Uniqueness -/

/-- Two sheets that differ in values only agree on cells that are closed under reading, if each of
these is the same in both or settled in both. -/
theorem Alike.agree {s t : Sheet} (h : Alike s t) (hs : s.Formed) {p : Address → Prop}
    (hclosed : ∀ a b, p a → s.graph.Reads a b → p b)
    (hp : ∀ a, p a → s.cells[a]? = t.cells[a]? ∨ s.Settled a ∧ t.Settled a) :
    ∀ a, p a → s.cells[a]? = t.cells[a]? := by
  intro a
  induction a using hs.acyclic.wellFounded.induction with
  | h a ih =>
    intro ha
    rcases hp a ha with heq | ⟨hsettled, hsettled'⟩
    · exact heq
    · have hform := h.form? a
      unfold Sheet.form? at hform
      cases hc : s.cells[a]? with
      | none =>
        rw [hc, Option.map_none] at hform
        exact (Option.map_eq_none_iff.mp hform.symm).symm
      | some c =>
        rw [hc, Option.map_some] at hform
        obtain ⟨c', hc', hsame⟩ := Option.map_eq_some_iff.mp hform.symm
        obtain ⟨v, hv, hvalue⟩ := hsettled c hc
        obtain ⟨v', hv', hvalue'⟩ := hsettled' c' hc'
        obtain ⟨hcontent, hkind⟩ := Prod.mk.inj hsame
        have hreads : ∀ b, s.graph.Reads a b → t.cells[b]? = s.cells[b]? :=
          fun b hab => (ih b hab (hclosed a b ha hab)).symm
        rw [valueOf_congr hs h.limits.symm hc hcontent hkind hreads, hvalue] at hvalue'
        cases hvalue'
        rw [hc']
        cases c
        cases c'
        simp_all

/-- Cells that are calculated one after the other come to show what they show in a sheet that is
settled throughout and differs from this one in nothing but their values. -/
theorem Alike.calculateAll {s t : Sheet} (h : Alike s t) (hs : s.Formed)
    (hsettled : ∀ a, s.Settled a) {order : List Address}
    (hforward : order.Pairwise fun a b => ¬s.graph.Reads a b)
    (hothers : ∀ x, x ∉ order → t.cells[x]? = s.cells[x]?) :
    ∃ u, t.calculateAll order = .ok u ∧ u.cells = s.cells := by
  induction order generalizing t with
  | nil => exact ⟨t, rfl, Std.ExtTreeMap.ext_getElem? fun x => hothers x (by simp)⟩
  | cons a rest ih =>
    obtain ⟨hafter, hforward⟩ := List.pairwise_cons.mp hforward
    have hform := h.form? a
    have hreads : ∀ b, s.graph.Reads a b → t.cells[b]? = s.cells[b]? := by
      intro b hab
      apply hothers
      rw [List.mem_cons, not_or]
      refine ⟨?_, fun hmem => hafter b hmem hab⟩
      rintro rfl
      exact hs.acyclic b (.single hab)
    rw [calculateAll_cons]
    rcases calculate_cases t a with ⟨hc, heq⟩ | ⟨c, hc, hcases⟩
    · rw [heq]
      apply ih h hforward
      intro x hx
      by_cases hxa : x = a
      · subst hxa
        unfold Sheet.form? at hform
        rw [hc, Option.map_none, Option.map_eq_none_iff] at hform
        rw [hc, hform]
      · exact hothers x (by simp [hxa, hx])
    · unfold Sheet.form? at hform
      rw [hc, Option.map_some] at hform
      obtain ⟨c₀, hc₀, hsame⟩ := Option.map_eq_some_iff.mp hform
      obtain ⟨hcontent, hkind⟩ := Prod.mk.inj hsame
      obtain ⟨v, hv, hvalue⟩ := hsettled a c₀ hc₀
      rw [← valueOf_congr hs h.limits.symm hc₀ hcontent.symm hkind.symm hreads] at hvalue
      rcases hcases with ⟨w, hw, heq⟩ | ⟨fault, hfault, -⟩
      · rw [hvalue] at hw
        cases hw
        rw [heq]
        apply ih (h.trans (alike_of_known hc _)) hforward
        intro x hx
        rw [Std.ExtTreeMap.getElem?_insert]
        by_cases hxa : x = a
        · subst hxa
          rw [if_pos Std.compare_self, hc₀, ← hcontent, ← hkind, ← hv]
        · rw [if_neg (by rwa [Std.LawfulEqOrd.compare_eq_iff_eq, eq_comm])]
          exact hothers x (by simp [hxa, hx])
      · rw [hvalue] at hfault
        contradiction

/-- Where a sheet is settled throughout, a pass over all cells of a sheet that differs from it in
values only ends there. -/
theorem Alike.recalculate {s t : Sheet} (h : Alike s t) (hs : s.Formed) (hsettled : ∀ a, s.Settled a)
    {cells : AddressSet} (hcells : ∀ a ∈ s.cells, a ∈ cells) :
    ∃ u, t.recalculate cells = .ok u ∧ u.cells = s.cells := by
  rw [recalculate_eq]
  dsimp only
  generalize horder : (t.graph.schedule (cells.filter fun a => t.cells.contains a)).order = order
  have hmem : ∀ x, x ∈ order ↔ x ∈ t.cells := by
    intro x
    rw [← horder, (h.formed hs).acyclic.mem_order_schedule (h.formed hs).sound, mem_occupied,
      ← h.mem_cells]
    exact ⟨And.right, fun hx => ⟨hcells x hx, hx⟩⟩
  have hforward : order.Pairwise fun a b => ¬s.graph.Reads a b := by
    rw [← horder, h.graph]
    exact Graph.forward_order_schedule (h.formed hs).sound _
  obtain ⟨u, hu, heq⟩ := h.calculateAll hs hsettled hforward (by
    intro x hx
    rw [hmem] at hx
    rw [Std.ExtTreeMap.getElem?_eq_none hx, Std.ExtTreeMap.getElem?_eq_none]
    rwa [h.mem_cells])
  rw [hu]
  exact ⟨_, rfl, heq⟩

end Spreadsheet.Sheet
