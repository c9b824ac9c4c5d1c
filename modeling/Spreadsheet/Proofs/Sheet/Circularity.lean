import Mathlib.Data.List.TakeWhile
import Spreadsheet.Proofs.Graph.Circuit
import Spreadsheet.Proofs.Sheet.Listing

/-! When a formula is refused for a cycle: just if its edges would close one. A refusal can always be told
of, since text names only rows whose numbers it can write, and every cell on a cycle is named. -/
namespace Spreadsheet

theorem Formula.visible_of_parse {content : String} {f : Formula} (h : parse content = .ok f) :
    Text.isAllBlank content = false := by
  have hformula := isFormulaText_of_parse h
  by_contra hblank
  rw [Bool.not_eq_false, Text.isAllBlank, List.all_eq_true] at hblank
  unfold isFormulaText Text.trim at hformula
  rw [List.dropWhile_eq_nil_iff.mpr hblank] at hformula
  cases hformula

namespace Sheet

/-- Whether text can name the cells that are read. -/
def Citable (s : Sheet) : Prop := ∀ a b, s.graph.Reads a b → b.isWritable

variable {s t u base : Sheet} {a b : Address} {content : String} {f : Formula}
  {touched : AddressSet} {path : List Address}

/-! ## Cells that are read -/

theorem citable_of_empty (h : s.graph = ∅) : s.Citable := by
  intro a b hab
  rw [h, Graph.Reads, Graph.readsOf_empty] at hab
  exact absurd hab Std.ExtTreeSet.not_mem_empty

theorem Citable.alike (h : s.Citable) (hlike : Alike s t) : t.Citable := by
  unfold Citable
  rw [← hlike.graph]
  exact h

theorem Citable.setReads (h : s.Citable) {targets : AddressSet} (htargets : ∀ b ∈ targets, b.isWritable)
    (hgraph : t.graph = s.graph.setReads a targets) : t.Citable := by
  intro x b hxb
  rw [hgraph, Graph.reads_setReads] at hxb
  split at hxb
  · exact htargets b hxb
  · exact h x b hxb

theorem Citable.stage (h : s.Citable) (a : Address) (content : String) :
    (s.stage a content).1.Citable := by
  obtain ⟨kind, hfits, -, ⟨targets, htargets, -, -, hstage⟩ | ⟨-, -, hstage⟩⟩ := stage_cases s a content
  · refine h.setReads (fun b hb => ?_) (congrArg Sheet.graph hstage)
    obtain ⟨f, rfl, -, hnames⟩ := (Cell.Kind.mem_reads? htargets).mp hb
    exact Formula.isWritable_of_names hfits.2.1 hnames
  · rw [hstage]
    exact h

theorem Citable.vacate (h : s.Citable) (a : Address) : (s.vacate a).Citable := by
  have hgraph : (s.vacate a).graph = s.graph.setReads a ∅ := rfl
  exact h.setReads (by simp) hgraph

theorem Staged.citable (h : Staged s touched t) (hs : s.Citable) : t.Citable := by
  induction h with
  | start => exact hs
  | stage a content _ _ _ _ ih => exact ih.stage a content
  | vacate a _ ih => exact ih.vacate a

theorem Edits.citable {fault : Option Fault} (h : Edits base u fault) (hformed : base.Formed)
    (hcitable : base.Citable) : u.Citable := by
  obtain ⟨touched, t, hstaged, hend | ⟨⟨a, content, -, -, -, rfl⟩, -⟩⟩ := h
  · exact (hstaged.citable hcitable).alike (hend.alike (hstaged.formed hformed))
  · exact (hstaged.citable hcitable).stage a content

theorem Citable.attempt (h : s.Citable) (hs : s.Formed) (call : Call) : (s.attempt call).sheet.Citable := by
  obtain ⟨base, hfrom, hdone⟩ := edits_or_staged_attempt hs call
  have hbase : base.Citable := by
    rcases hfrom with rfl | ⟨e, rfl⟩
    · exact h
    · exact citable_of_empty rfl
  rcases hdone with ⟨fault, hedits⟩ | ⟨touched, hstaged⟩
  · exact hedits.citable (hs.base hfrom) hbase
  · exact hstaged.citable hbase

theorem citable_attempts (limits : Limits) (calls : List Call) : ((new limits).attempts calls).Citable := by
  unfold attempts
  induction calls using List.reverseRecOn with
  | nil => exact citable_of_empty rfl
  | append_singleton calls call ih =>
    rw [List.foldl_concat]
    exact ih.attempt (formed_attempts limits calls).1 call

/-! ## Formulas that are entered -/

theorem interpret_of_parse (hf : Formula.parse content = .ok f)
    (hsize : f.oversized? s.limits.rangeCells = none) :
    s.interpret a content =
      match s.graph.cyclePath? a (f.addresses s.bounds) with
      | some path => .error (.circular path)
      | none => .ok (.formula f, f.addresses s.bounds) := by
  unfold interpret
  rw [Formula.isFormulaText_of_parse hf, hf]
  dsimp only
  rw [hsize]
  rfl

/-- All cells on a way that a formula would close to a cycle can be named: the formula names the first one
that it leads to, and the others are read. -/
theorem Citable.isWritable_of_circuit (h : s.Citable) (hf : Formula.parse content = .ok f)
    (hpath : s.graph.Circuit a (f.addresses s.bounds) path) : ∀ b ∈ path, b.isWritable := by
  obtain ⟨hstart, ⟨t, ht, hsecond⟩, hfollows, hend, -⟩ := hpath
  match path, hstart with
  | [_], _ => cases hsecond
  | _ :: _ :: rest, rfl =>
    cases hsecond
    have hnamed : t.isWritable := Formula.isWritable_of_names hf (Formula.mem_addresses.mp ht).2
    have hrest : ∀ b ∈ t :: rest, b.isWritable :=
      List.IsChain.induction (·.isWritable) (t :: rest) hfollows (fun x y hxy _ => h x y hxy)
        fun _ => hnamed
    rw [List.forall_mem_cons]
    exact ⟨hrest a (List.mem_of_getLast? hend), hrest⟩

theorem stage_circular_of_path (hf : Formula.parse content = .ok f)
    (hsize : f.oversized? s.limits.rangeCells = none)
    (hpath : s.graph.cyclePath? a (f.addresses s.bounds) = some path) :
    s.stage a content =
      ({ s with cells := s.cells.insert a ⟨content, .rejected .cycle, .known (.error .cycle)⟩ },
        some (.circular path)) := by
  have hinterpret := interpret_of_parse (a := a) hf hsize
  rw [hpath] at hinterpret
  unfold stage
  rw [hinterpret]

/-- A formula that would close a cycle is refused, and leaves the edges as they are. -/
theorem enter_circular (hf : Formula.parse content = .ok f)
    (hsize : f.oversized? s.limits.rangeCells = none) (ha : a.isWritable)
    (hpath : s.graph.cyclePath? a (f.addresses s.bounds) = some path) :
    (s.enter a content).sheet = s.withCircular a content ∧
      (s.enter a content).answer = .ok (some ⟨a, .circular path⟩) := by
  unfold enter
  rw [stage_circular_of_path hf hsize hpath]
  dsimp only
  rw [Option.all_some, Rejection.isTellable_circular, ha]
  exact ⟨rfl, rfl⟩

/-- A sheet with a formula that is not calculated yet. -/
def withFormula (s : Sheet) (a : Address) (content : String) (f : Formula) : Sheet :=
  { s with cells := s.cells.insert a ⟨content, .formula f, .pending none⟩,
           graph := s.graph.setReads a (f.addresses s.bounds) }

theorem stage_accepted (hf : Formula.parse content = .ok f)
    (hsize : f.oversized? s.limits.rangeCells = none)
    (hfree : s.graph.cyclePath? a (f.addresses s.bounds) = none) :
    s.stage a content = (s.withFormula a content f, none) := by
  have hinterpret := interpret_of_parse (a := a) hf hsize
  rw [hfree] at hinterpret
  unfold stage
  rw [hinterpret]
  rfl

theorem ne_ok_some_conclude {trigger : Option Address} {cells : AddressSet} {before after : List Event}
    (d : Diagnostic) : (s.conclude trigger cells before after none).answer ≠ .ok (some d) := by
  rw [conclude_eq]
  split
  · split <;> simp
  · simp

/-- A formula that closes no cycle gets its edges and is not told of. -/
theorem enter_accepted (hs : s.Formed) (hin : s.limits.Holds a) (hf : Formula.parse content = .ok f)
    (hsize : f.oversized? s.limits.rangeCells = none)
    (hfree : s.graph.cyclePath? a (f.addresses s.bounds) = none) :
    Alike (s.withFormula a content f) (s.enter a content).sheet ∧
      ∀ d, (s.enter a content).answer ≠ .ok (some d) := by
  have hstage := stage_accepted hf hsize hfree
  have hformed := hs.stage hin (Formula.visible_of_parse hf)
  rw [hstage] at hformed
  have henter : s.enter a content = (s.withFormula a content f).conclude (some a)
      ((s.withFormula a content f).affected {a}) [] [.cellSet a (Formula.isFormulaText content)] none := by
    unfold enter
    rw [hstage]
    rfl
  rw [henter]
  exact ⟨(ended_conclude ..).alike hformed, ne_ok_some_conclude⟩

theorem set_eq_enter {place : Address.Given} (hplace : s.locate place = .ok a)
    (hvisible : Text.isAllBlank content = false) : s.set place (.text content) = s.enter a content := by
  unfold set
  dsimp only
  rw [hplace]
  dsimp only
  rw [hvisible]
  rfl

/-- A formula that is set is refused just if its edges would close a cycle, since the graph of the sheet
has none without them. -/
theorem set_circular_iff (hs : s.Formed) (hcitable : s.Citable) {place : Address.Given}
    (hplace : s.locate place = .ok a) (hf : Formula.parse content = .ok f)
    (hsize : f.oversized? s.limits.rangeCells = none) :
    let reads := f.addresses s.bounds
    let committed := s.graph.setReads a reads
    let r := s.set place (.text content)
    (r.sheet.Circular a ↔ ¬committed.Acyclic) ∧
      (¬committed.Acyclic → r.sheet.graph = s.graph ∧
        ∃ path, s.graph.Circuit a reads path ∧ (∀ b ∈ path, b.isWritable) ∧
          r.answer = .ok (some ⟨a, .circular path⟩)) ∧
      (committed.Acyclic → r.sheet.graph = committed ∧ ∀ d, r.answer ≠ .ok (some d)) := by
  intro reads committed r
  have hset : r = s.enter a content := set_eq_enter hplace (Formula.visible_of_parse hf)
  have hcommitted : committed.Acyclic ↔ s.graph.cyclePath? a reads = none := hs.acyclic.setReads_iff
  rw [hset, hcommitted]
  cases hpath : s.graph.cyclePath? a reads with
  | none =>
    obtain ⟨hlike, hanswer⟩ := enter_accepted hs (holds_of_locate hplace) hf hsize hpath
    have hcircular : ¬(s.enter a content).sheet.Circular a := by
      rw [← hlike.circular_iff, circular_iff, form?_insert rfl, if_pos rfl]
      rintro ⟨text, heq⟩
      cases heq
    exact ⟨by simpa using hcircular, by simp, fun _ => ⟨hlike.graph.symm, hanswer⟩⟩
  | some path =>
    have hcircuit := Graph.circuit_of_cyclePath? hpath
    have hnamed := hcitable.isWritable_of_circuit hf hcircuit
    have ha : a.isWritable := hnamed a (List.mem_of_mem_head? hcircuit.starts)
    obtain ⟨hsheet, hanswer⟩ := enter_circular hf hsize ha hpath
    have hcircular : (s.enter a content).sheet.Circular a := by
      rw [hsheet]
      exact ⟨_, Std.ExtTreeMap.getElem?_insert_self, rfl⟩
    have hgraph : (s.enter a content).sheet.graph = s.graph := by
      rw [hsheet]
      rfl
    exact ⟨by simpa using hcircular, fun _ => ⟨hgraph, path, hcircuit, hnamed, hanswer⟩, by simp⟩

/-- After any edits a formula that is set is refused for a cycle if and only if the graph would have one
with its edges, and then the edges stay as they were. What the search for a cycle says of any graph is
right, and the way that it gives is one that the edges would close. Text can name all cells on it. -/
theorem attempts_circular (limits : Limits) (calls : List Call) :
    (∀ (g : Graph) (a : Address) (targets : AddressSet),
      ((g.cyclePath? a targets).isSome ↔ (g.setReads a targets).ReadsThrough a a) ∧
        ∀ path, g.cyclePath? a targets = some path → g.Circuit a targets path) ∧
    let s := (new limits).attempts calls
    ∀ place a content f, s.locate place = .ok a → Formula.parse content = .ok f →
      f.oversized? s.limits.rangeCells = none →
        let reads := f.addresses s.bounds
        let committed := s.graph.setReads a reads
        let r := s.set place (.text content)
        (r.sheet.Circular a ↔ ¬committed.Acyclic) ∧
          (¬committed.Acyclic → r.sheet.graph = s.graph ∧
            ∃ path, s.graph.Circuit a reads path ∧ (∀ b ∈ path, b.isWritable) ∧
              r.answer = .ok (some ⟨a, .circular path⟩)) ∧
          (committed.Acyclic → r.sheet.graph = committed ∧ ∀ d, r.answer ≠ .ok (some d)) := by
  refine ⟨fun g a targets => ⟨Graph.isSome_cyclePath?_iff, fun path => Graph.circuit_of_cyclePath?⟩, ?_⟩
  intro s place a content f hplace hf hsize
  exact set_circular_iff (formed_attempts limits calls).1 (citable_attempts limits calls) hplace hf hsize

private theorem mem_addresses_cell (hs : s.limits = standard) (hb : standard.Holds b) {x : Address} :
    x ∈ (Formula.cell b).addresses s.bounds ↔ x = b := by
  rw [← hs, holds_iff] at hb
  rw [Formula.mem_addresses, Formula.names_cell]
  exact and_iff_right_of_imp fun hx => hx ▸ hb.2

/-- Of two cells that name each other the second one is refused. -/
theorem attempts_circular_crossed :
    let s := (new standard).attempts [.set (⟨0, 1⟩ : Address).given (.text "=A1")]
    let r := s.set (⟨0, 0⟩ : Address).given (.text "=B1")
    r.sheet.Circular ⟨0, 0⟩ ∧ ∃ path, r.answer = .ok (some ⟨⟨0, 0⟩, .circular path⟩) := by
  intro s r
  have hleft : standard.Holds ⟨0, 0⟩ := by simp [Limits.Holds, standard]
  have hright : standard.Holds ⟨0, 1⟩ := by simp [Limits.Holds, standard]
  have hlimits : s.limits = standard := (edits_set formed_of_empty _ "=A1").limits formed_of_empty
  -- B1 reads A1, since an empty sheet has no edge by which that could close a cycle.
  have hreads : s.graph.Reads ⟨0, 1⟩ ⟨0, 0⟩ := by
    obtain ⟨-, hset⟩ := attempts_circular standard []
    obtain ⟨-, -, haccepted⟩ := hset (⟨0, 1⟩ : Address).given ⟨0, 1⟩ "=A1" (.cell ⟨0, 0⟩)
      (locate_given hright) (eq_ok_of_toOption (by decide +kernel)) rfl
    have hfree : (∅ : Graph).cyclePath? ⟨0, 1⟩ ((Formula.cell ⟨0, 0⟩).addresses (new standard).bounds) =
        none := by
      rw [← Option.not_isSome_iff_eq_none, Graph.isSome_cyclePath?]
      rintro ⟨x, hx, hway⟩
      obtain rfl := (mem_addresses_cell rfl hleft).mp hx
      rcases hway.cases_head with heq | ⟨y, hxy, -⟩
      · cases heq
      · simp [Graph.Reads, Graph.readsOf_empty] at hxy
    have hgraph : s.graph = _ := (haccepted (Graph.acyclic_empty.setReads hfree)).1
    rw [hgraph, Graph.reads_setReads, if_pos rfl]
    exact (mem_addresses_cell rfl hleft).mpr rfl
  obtain ⟨-, hset⟩ := attempts_circular standard [.set (⟨0, 1⟩ : Address).given (.text "=A1")]
  obtain ⟨hcircular, hrefused, -⟩ := hset (⟨0, 0⟩ : Address).given ⟨0, 0⟩ "=B1" (.cell ⟨0, 1⟩)
    (locate_given (by rw [show Sheet.limits _ = standard from hlimits]; exact hleft))
    (eq_ok_of_toOption (by decide +kernel)) rfl
  have hclosed : ¬(s.graph.setReads ⟨0, 0⟩ ((Formula.cell ⟨0, 1⟩).addresses s.bounds)).Acyclic := by
    intro hacyclic
    refine hacyclic ⟨0, 0⟩ (.tail (.single (b := ⟨0, 1⟩) ?_) ?_)
    · rw [Graph.reads_setReads, if_pos rfl]
      exact (mem_addresses_cell hlimits hright).mpr rfl
    · rw [Graph.reads_setReads, if_neg (by decide)]
      exact hreads
  obtain ⟨-, path, -, -, hanswer⟩ := hrefused hclosed
  exact ⟨hcircular.mpr hclosed, path, hanswer⟩

end Sheet
end Spreadsheet
