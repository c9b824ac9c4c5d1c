import Spreadsheet.Proofs.Sheet.Circularity

/-! Where errors come from that no operator and no function makes. A cell that shows one has read it from
another one, and so on down to a cell with a formula that was refused or that holds the error as a constant.
Only where a calculation broke off can it have no such origin. -/
namespace Spreadsheet

open Relation (ReflTransGen)

/-! ## Formulas -/

/-- Faults that tell of errors only that have a source. -/
def Regime.sourced (precision : Int) (source : ErrorKind → Prop) : Regime precision where
  number _ := True
  failure
    | .fault (.read kind) => source kind
    | _ => True
  carried _ := trivial
  counted _ := trivial
  own {fault} hown := by cases fault <;> trivial
  overflow := trivial
  unwritten _ _ := trivial

theorem Regime.admitsContent_sourced {precision : Int} {source : ErrorKind → Prop} {v : Value}
    (h : ∀ kind, v = .error kind → source kind) : (sourced precision source).AdmitsContent v := by
  match v with
  | .number n => trivial
  | .text s => trivial
  | .bool b => trivial
  | .error kind => exact h kind rfl

/-- An error of which there is no fault but that it was read. -/
def ErrorKind.isInherited : ErrorKind → Bool
  | .malformed | .cycle => true
  | _ => false

theorem Fault.eq_read_of_kind {fault : Fault} (h : fault.kind.isInherited) :
    fault = .read fault.kind := by
  cases fault <;> first | rfl | contradiction

namespace Formula

variable {scope : Scope} {f : Formula} {kind : ErrorKind}

/-- Whether a formula meets an error in a constant or in a cell that it reads. -/
def Meets (scope : Scope) (f : Formula) (kind : ErrorKind) : Prop :=
  .error kind ∈ f.constants ∨
    ∃ a, f.Names a ∧ scope.bounds.contains a ∧ scope.contents a = some (.error kind)

theorem covers_sourced (scope : Scope) (f : Formula) :
    (Regime.sourced scope.precision (Meets scope f)).CoversFormula f where
  constant _ hv := Regime.admitsContent_sourced fun _ heq => .inl (heq ▸ hv)
  content r hr a ha hin _ hv := Regime.admitsContent_sourced fun _ heq =>
    .inr ⟨a, ⟨r, hr, ha⟩, hin, heq ▸ hv⟩
  unwritable _ _ _ _ _ _ := trivial
  unknown _ _ _ := trivial

/-- An inherited error is one that the formula meets. -/
theorem meets_of_evaluate (hkind : kind.isInherited) (h : evaluate scope f = .ok (.error kind)) :
    Meets scope f kind := by
  have heval := Regime.Yields.eval (covers_sourced scope f)
  obtain ⟨failure, hfailure, hfound⟩ := exists_failure_of_evaluate h
  rw [hfailure] at heval
  match failure with
  | .fault fault =>
    cases hfound
    rw [Fault.eq_read_of_kind hkind] at heval
    exact heval
  | .overflow =>
    cases hfound
    contradiction
  | .precision fault => contradiction

end Formula

namespace Sheet

variable {s t u base : Sheet} {a b : Address} {kind : ErrorKind}

/-! ## Cells -/

/-- Whether a cell has an error of its own accord: its formula was refused as malformed, or it holds the
error as a constant. -/
def Originates (s : Sheet) (kind : ErrorKind) (a : Address) : Prop :=
  ∃ c, s.cells[a]? = some c ∧
    (c.rejection? = some .malformed ∧ kind = .malformed ∨
      ∃ f, c.formula? = some f ∧ .error kind ∈ f.constants)

/-- What formulas see of a cell is its content, unless its calculation broke off. -/
theorem contents_of_seen {v : Value} (hsettled : s.Settled a) (h : s.seen a = some v) :
    s.contents a = some v := by
  obtain ⟨c, hc, hseen⟩ := Option.bind_eq_some_iff.mp h
  obtain ⟨w, hw, -⟩ := hsettled c hc
  unfold contents
  rw [hc, ← hseen, Option.bind_some, Cell.value?, hw]
  rfl

/-- A settled cell with an inherited error has it of its own accord or reads it. -/
theorem origin_or_reads (hs : s.Formed) (hfree : ¬s.Circular a) (hsettled : s.Settled a)
    (hkind : kind.isInherited) (ha : s.contents a = some (.error kind)) :
    s.Originates kind a ∨ ∃ b, s.graph.Reads a b ∧ s.seen b = some (.error kind) := by
  obtain ⟨c, hc, hvalue⟩ := Option.bind_eq_some_iff.mp ha
  obtain ⟨v, hv, hcalculated⟩ := hsettled c hc
  unfold Cell.value? at hvalue
  rw [hv] at hvalue
  cases hvalue
  unfold valueOf at hcalculated
  split at hcalculated
  · cases hcalculated
  · rename_i f hf
    rcases Formula.meets_of_evaluate hkind hcalculated with hconstant | ⟨b, hnames, hin, hb⟩
    · exact .inl ⟨c, hc, .inr ⟨f, Cell.formula?_eq_some.mpr hf, hconstant⟩⟩
    · have hform := form?_of_getElem? hc
      exact .inr ⟨b, (hs.reads_iff hform (ne_cycle_of_form? hfree hform)).mpr ⟨f, hf, hin, hnames⟩, hb⟩
  · rename_i reason hreason
    cases hcalculated
    have hrejection := Cell.rejection?_eq_some.mpr hreason
    match kind, hkind with
    | .malformed, _ => exact .inl ⟨c, hc, .inl ⟨hrejection, rfl⟩⟩
    | .cycle, _ => exact absurd ⟨c, hc, hrejection⟩ hfree

/-- An inherited error that a cell shows leads down to its origin, or to a cell that is not settled. -/
theorem exists_origin (hs : s.Formed) (hfree : ∀ a, ¬s.Circular a) (hkind : kind.isInherited)
    (ha : s.contents a = some (.error kind)) :
    ∃ b, ReflTransGen s.graph.Reads a b ∧ (s.Originates kind b ∨ ¬s.Settled b) := by
  -- Down the edges, along which nothing leads on for ever.
  induction a using hs.acyclic.wellFounded.induction with
  | h a ih =>
    by_cases hsettled : s.Settled a
    · rcases origin_or_reads hs (hfree a) hsettled hkind ha with horigin | ⟨b, hab, hb⟩
      · exact ⟨a, .refl, .inl horigin⟩
      · by_cases hsettled' : s.Settled b
        · obtain ⟨x, hbx, hx⟩ := ih b hab (contents_of_seen hsettled' hb)
          exact ⟨x, .head hab hbx, hx⟩
        · exact ⟨b, .single hab, .inr hsettled'⟩
    · exact ⟨a, .refl, .inr hsettled⟩

/-! ## Edits that come to their end -/

/-- Whether an edit was refused, or else did all that it had to do but perhaps to tell of it. -/
def Completes (answer : Option Fault) : Prop :=
  ∀ fault, answer = some fault → fault.refuses ∨ fault = .untold

theorem Completes.calm {answer : Option Fault} (h : Completes answer) :
    ∀ fault, answer = some fault → fault.interrupts = false := by
  intro fault hfault
  rcases h fault hfault with hrefuses | rfl
  · exact Fault.interrupts_of_refuses hrefuses
  · rfl

theorem edits_load_of_completes {items : List (Address.Given × Datum)}
    (h : Completes (faultOf (s.load items).answer)) :
    Edits s (s.load items).sheet (faultOf (s.load items).answer) := by
  have hafter := s.afterLoad_load items
  generalize s.load items = r at hafter h ⊢
  cases hafter with
  | refused hplaces => exact .refused (refuses_of_locateAll hplaces)
  | entered hplaces _ => exact edits_enterAll (holds_of_texts hplaces)
  | unloadable _ _ _ _ | halted _ _ _ _ => exact absurd (h _ rfl) (by simp [Fault.refuses])

/-- An edit that comes to its end leaves the cells that it affects calculated. -/
theorem Consistent.attempt (h : s.Consistent) (hs : s.Formed) {call : Call}
    (hcompletes : Completes (s.attempt call).answer) : (s.attempt call).sheet.Consistent := by
  have hperform : ∀ e, Completes (s.perform e).answer → (s.perform e).sheet.Consistent :=
    fun e he => h.perform hs he.calm
  cases call with
  | set place content =>
    cases content with
    | text content => exact hperform (.set place content) hcompletes
    | _ => exact h
  | clear place => exact hperform (.clear place) hcompletes
  | load items => exact h.edits hs (.inl rfl) (edits_load_of_completes hcompletes) hcompletes.calm
  | recalculateAll => exact hperform .recalculateAll hcompletes
  | insertLines axis index count => exact hperform (.insertLines axis index count) hcompletes
  | deleteLines axis index count => exact hperform (.deleteLines axis index count) hcompletes

/-- Whether each of some edits, one after the other, comes to its end. -/
def Completed (limits : Limits) (calls : List Call) : Prop :=
  ∀ past call, past ++ [call] <+: calls → Completes (((new limits).attempts past).attempt call).answer

theorem consistent_of_completed {limits : Limits} {calls : List Call} (h : Completed limits calls) :
    ((new limits).attempts calls).Consistent := by
  induction calls using List.reverseRecOn with
  | nil => exact consistent_of_vacant fun a => by simp [attempts, new]
  | append_singleton calls call ih =>
    -- What comes to its end in all of the edits does so in those before the last one.
    have hbefore := ih fun past call hpast => h past call (hpast.trans (List.prefix_append _ _))
    have hs : ((new limits).attempts calls).Formed := (formed_attempts limits calls).1
    have hstep := hbefore.attempt hs (h calls call List.prefix_rfl)
    unfold attempts at hstep ⊢
    rwa [List.foldl_concat]

theorem exists_item_of_locateAll {items : List (Address.Given × Datum)} {contents : AddressMap Datum}
    (h : s.locateAll items = .ok contents) {content : Datum} (ha : contents[a]? = some content) :
    ∃ item ∈ items, item.2 = content := by
  refine foldlM_invariant (p := fun contents : AddressMap Datum =>
    ∀ (a : Address) content, contents[a]? = some content → ∃ item ∈ items, item.2 = content)
    ?_ (by simp) h a content ha
  intro found item next hitem hfound hnext x content hx
  obtain ⟨b, -, hnext⟩ := bind_eq_ok.mp hnext
  cases hnext
  rw [Std.ExtTreeMap.getElem?_insert] at hx
  split at hx
  · cases hx
    exact ⟨item, hitem, rfl⟩
  · exact hfound x content hx

/-- What keeps a load from its end is among the contents that are given. -/
theorem exists_item_of_unloadable {items : List (Address.Given × Datum)} {found : Datum}
    (h : Failure s items u (.unloadable found)) : ∃ item ∈ items, ∀ text, item.2 ≠ .text text := by
  cases h with
  | refused hrefuses => cases hrefuses
  | unloadable hplaces hfound _ =>
    obtain ⟨⟨a, content⟩, hfind, rfl⟩ := Option.map_eq_some_iff.mp hfound
    have hmem := Std.ExtTreeMap.mem_toList_iff_getElem?_eq_some.mp (List.mem_of_find?_eq_some hfind)
    obtain ⟨item, hitem, hcontent⟩ := exists_item_of_locateAll hplaces hmem
    refine ⟨item, hitem, fun text htext => ?_⟩
    have hnone := List.find?_some hfind
    rw [← hcontent, htext] at hnone
    cases hnone

theorem completed_of_writable {limits : Limits} {calls : List Call}
    (hprecision : limits.precision.val ≤ Number.maxPrecision)
    (htexts : ∀ call ∈ calls, ∀ item ∈ call.items, ∃ text, item.2 = .text text)
    (hwritable : ∀ past, past <+: calls →
      (∀ axis, Number.isWritable (((new limits).attempts past).lineCount axis)) ∧
        ((new limits).attempts past).TellsRanges) : Completed limits calls := by
  intro past call hpast fault hfault
  obtain ⟨hs, hkept⟩ := formed_attempts limits past
  have hfailure := failure_of_attempt hs hfault
  have hafter := hwritable _ hpast
  rw [show (new limits).attempts (past ++ [call]) = (((new limits).attempts past).attempt call).sheet by
    unfold attempts
    rw [List.foldl_concat]] at hafter
  obtain ⟨hlines, hranges⟩ := hafter
  have hlong : ¬Overlong ((new limits).attempts past)
      (((new limits).attempts past).attempt call).sheet := not_overlong fun axis =>
    ⟨(hwritable past ((List.prefix_append _ _).trans hpast)).1 axis, hlines axis⟩
  have htold : fault ≠ .untold := by
    rintro rfl
    exact hlong (overlong_of_untold hs hfault)
  rcases hfailure.calm hs (bounded_attempts limits past) (hkept ▸ hprecision) hlong hranges htold with
    hrefuses | ⟨found, rfl⟩
  · exact .inl hrefuses
  · obtain ⟨item, hitem, hnone⟩ := exists_item_of_unloadable hfailure
    have hcall : call ∈ calls := hpast.subset (by simp)
    obtain ⟨text, htext⟩ := htexts call hcall item hitem
    exact absurd htext (hnone text)

/-- After any edits, some of which may have failed, an error that nothing but a refusal or a constant makes
comes from a cell with such an origin, reached along the edges, or from one whose value is not that of its
content over the others. After edits that all came to their end it has an origin. So they do within the
greatest precision, if all contents to be loaded are texts and the numbers of all lines are short enough
to write, and so is the limit for ranges whenever one is over it. -/
theorem attempts_origin (limits : Limits) (calls : List Call) :
    let s := (new limits).attempts calls
    (∀ a, ¬s.Circular a) →
      (∀ a kind, kind = .malformed ∨ kind = .cycle → s.contents a = some (.error kind) →
        (∃ b, ReflTransGen s.graph.Reads a b ∧ (s.Originates kind b ∨ ¬s.Settled b)) ∧
        (Completed limits calls → ∃ b, ReflTransGen s.graph.Reads a b ∧ s.Originates kind b)) ∧
      (limits.precision.val ≤ Number.maxPrecision →
        (∀ call ∈ calls, ∀ item ∈ call.items, ∃ text, item.2 = .text text) →
        (∀ past, past <+: calls →
          (∀ axis, Number.isWritable (((new limits).attempts past).lineCount axis)) ∧
            ((new limits).attempts past).TellsRanges) →
        Completed limits calls) := by
  intro s hfree
  have hs : s.Formed := (formed_attempts limits calls).1
  refine ⟨fun a kind hkind ha => ?_, completed_of_writable⟩
  have hinherited : kind.isInherited := by
    rcases hkind with rfl | rfl <;> rfl
  obtain ⟨b, hab, hb⟩ := exists_origin hs hfree hinherited ha
  refine ⟨⟨b, hab, hb⟩, fun hcompleted => ⟨b, hab, hb.resolve_right fun hunsettled => ?_⟩⟩
  exact hunsettled ((consistent_of_completed hcompleted).settled hfree b)

private def inherited : Formula :=
  .binary .add (.constant (.error .cycle)) (.constant (.number (.int 1)))

private theorem parse_inherited : Formula.parse "=#CYCLE!+1" = .ok inherited :=
  eq_ok_of_toOption (by decide +kernel)

private theorem alike_inherited : Alike ((new standard).withFormula ⟨0, 0⟩ "=#CYCLE!+1" inherited)
    ((new standard).attempts [.set (⟨0, 0⟩ : Address).given (.text "=#CYCLE!+1")]) := by
  have hin : standard.Holds ⟨0, 0⟩ := by simp [Limits.Holds, standard]
  have hfree : (∅ : Graph).cyclePath? ⟨0, 0⟩ (inherited.addresses (new standard).bounds) = none := by
    rw [← Option.not_isSome_iff_eq_none, Graph.isSome_cyclePath?]
    rintro ⟨x, hx, -⟩
    exact Std.ExtTreeSet.not_mem_empty hx
  have hset := set_eq_enter (s := new standard) (locate_given hin)
    (Formula.visible_of_parse parse_inherited)
  change Alike _ ((new standard).set _ _).sheet
  rw [hset]
  exact (enter_accepted formed_of_empty hin parse_inherited rfl hfree).1

private theorem form?_inherited (x : Address) :
    ((new standard).attempts [.set (⟨0, 0⟩ : Address).given (.text "=#CYCLE!+1")]).form? x =
      if x = ⟨0, 0⟩ then some ("=#CYCLE!+1", .formula inherited) else none := by
  rw [← alike_inherited.form?, form?_insert rfl]
  simp [form?, new]

private theorem limits_inherited {past : List Call}
    (h : past <+: [.set (⟨0, 0⟩ : Address).given (.text "=#CYCLE!+1")]) :
    ((new standard).attempts past).limits = standard := by
  cases past with
  | nil => rfl
  | cons call past =>
    obtain ⟨rfl, hrest⟩ := List.cons_prefix_cons.mp h
    cases List.prefix_nil.mp hrest
    exact alike_inherited.limits.symm

/-- A sum with the constant of a cycle shows a cycle. -/
theorem attempts_origin_constant :
    let calls : List Call := [.set (⟨0, 0⟩ : Address).given (.text "=#CYCLE!+1")]
    let s := (new standard).attempts calls
    (∀ a, ¬s.Circular a) ∧ Completed standard calls ∧ s.contents ⟨0, 0⟩ = some (.error .cycle) ∧
      ∃ b, ReflTransGen s.graph.Reads ⟨0, 0⟩ b ∧ s.Originates .cycle b := by
  intro calls s
  have hfree : ∀ a, ¬s.Circular a := by
    intro a
    rw [circular_iff, form?_inherited]
    rintro ⟨content, heq⟩
    split at heq <;> cases heq
  obtain ⟨horigin, hcompletes⟩ := attempts_origin standard calls hfree
  have hcompleted : Completed standard calls := by
    refine hcompletes (by decide) (by simp [calls, Call.items]) fun past hpast => ⟨fun axis => ?_, ?_⟩
    · unfold lineCount
      rw [limits_inherited hpast]
      cases axis <;> exact Number.isWritable_of_lt_maxExactInt (by decide)
    · intro _
      rw [limits_inherited hpast]
      exact Number.isWritable_of_lt_maxExactInt (by decide)
  have hcontents : s.contents ⟨0, 0⟩ = some (.error .cycle) := by
    obtain ⟨⟨content, kind, result⟩, hc, hsame⟩ := Option.map_eq_some_iff.mp (form?_inherited ⟨0, 0⟩)
    cases hsame
    obtain ⟨v, hv, hvalue⟩ := (consistent_of_completed hcompleted).settled hfree ⟨0, 0⟩ _ hc
    cases hvalue
    unfold contents
    rw [hc]
    exact congrArg Cell.Result.value? hv
  exact ⟨hfree, hcompleted, hcontents, (horigin _ .cycle (.inr rfl) hcontents).2 hcompleted⟩

end Sheet
end Spreadsheet
