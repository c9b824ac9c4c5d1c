import Spreadsheet.Proofs.Sheet.Entering
import Spreadsheet.Proofs.Sheet.Setting

/-! Sheets entered anew. Where no cell is refused for a cycle, bounds and contents determine a sheet that
is consistent: entered one after the other into an empty sheet the contents close no cycle on the way,
and there is one way for all cells to show their values. -/
namespace Spreadsheet.Sheet

/-- Whether the numbers of all rows with a refused formula are short enough to tell of it, and the limit
for ranges, too, where one is over it. -/
def Tellable (s : Sheet) : Prop :=
  ∀ (a : Address) (c : Cell) (reason : ErrorKind), s.cells[a]? = some c → c.rejection? = some reason →
    s.limits.tells a reason

/-- An empty sheet with the same bounds after the contents of a sheet were loaded. -/
def reload (s : Sheet) : Edited (Except Fault (List Diagnostic)) :=
  (new s.limits).load (s.dump.map fun (a, content) => (a.given, .text content))

/-! ## Refusals that can be told of -/

theorem tellable_iff {s : Sheet} :
    s.Tellable ↔ ∀ a content reason, s.form? a = some (content, .rejected reason) →
      s.limits.tells a reason := by
  constructor
  · intro h a content reason hform
    obtain ⟨c, hc, hreason⟩ := exists_rejection?_iff.mpr ⟨content, hform⟩
    exact h a c reason hc hreason
  · intro h a c reason hc hreason
    obtain ⟨content, hform⟩ := exists_rejection?_iff.mp ⟨c, hc, hreason⟩
    exact h a content reason hform

theorem tellable_of_empty {s : Sheet} (h : s.cells = ∅) : s.Tellable := by
  intro a c reason hc
  simp [h] at hc

theorem Alike.tellable {s t : Sheet} (h : Alike s t) (hs : s.Tellable) : t.Tellable := by
  rw [tellable_iff] at hs ⊢
  intro a content reason hform
  exact h.limits ▸ hs a content reason (h.form? a ▸ hform)

theorem Staged.tellable {s t : Sheet} {touched : AddressSet} (h : Staged s touched t)
    (hs : s.Tellable) : t.Tellable := by
  induction h with
  | start => exact hs
  | @stage _ t a content _ _ _ htold ih =>
    rw [tellable_iff] at ih ⊢
    intro x text reason hform
    obtain ⟨kind, -, hreason, hstaged⟩ := form?_stage t a content
    rw [limits_stage]
    rw [hstaged] at hform
    split at hform
    · rename_i hx
      cases hform
      exact hx ▸ (all_isTellable_iff hreason).mp htold reason rfl
    · exact ih x text reason hform
  | vacate a _ ih =>
    rw [tellable_iff] at ih ⊢
    intro x text reason hform
    rw [form?_vacate] at hform
    split at hform
    · contradiction
    · exact ih x text reason hform

theorem tellable_of_uninterrupted {limits : Limits} {history : List Edit}
    (h : (new limits).Uninterrupted history) : ((new limits).run history).Tellable := by
  induction history using List.reverseRecOn with
  | nil => exact tellable_of_empty rfl
  | append_singleton history e ih =>
    rw [uninterrupted_snoc] at h
    rw [run_snoc]
    have hs := formed_run limits history
    obtain ⟨base, hbase, touched, t, hstaged, hend⟩ := edits_perform hs e
    have hbase' : base.Formed ∧ base.Tellable := by
      rcases hbase with rfl | ⟨edit, rfl⟩
      · exact ⟨hs, ih h.1⟩
      · exact ⟨formed_of_empty, tellable_of_empty rfl⟩
    rcases hend with hend | ⟨-, hhalted⟩
    · exact (hend.alike (hstaged.formed hbase'.1)).tellable (hstaged.tellable hbase'.2)
    · cases h.2 _ hhalted

/-! ## Reloading -/

theorem insertMany_toList {α : Type} (m : AddressMap α) :
    (∅ : AddressMap α).insertMany m.toList = m := by
  apply Std.ExtTreeMap.ext_getElem?
  intro x
  cases hx : m[x]? with
  | some v =>
    exact Std.ExtTreeMap.getElem?_insertMany_list_of_mem Std.compare_self
      Std.ExtTreeMap.distinct_keys_toList (Std.ExtTreeMap.mem_toList_iff_getElem?_eq_some.mpr hx)
  | none =>
    rw [Std.ExtTreeMap.getElem?_insertMany_list_of_contains_eq_false, Std.ExtTreeMap.getElem?_empty]
    rw [List.contains_eq_mem, decide_eq_false_iff_not]
    rintro hmem
    obtain ⟨item, hitem, rfl⟩ := List.mem_map.mp hmem
    have hmem := mem_of_mem_toList hitem
    rw [Std.ExtTreeMap.mem_iff_isSome_getElem?, hx] at hmem
    contradiction

theorem reload_eq {s : Sheet} (hs : s.Formed) :
    s.reload = (new s.limits).enterAll (s.cells.map fun _ c => c.content) := by
  have htexts : (s.cells.map fun _ c => c.content).toList = s.dump := by
    rw [Std.ExtTreeMap.toList_map]
    rfl
  have hin : ∀ item ∈ s.dump, s.limits.Holds item.1 := by
    intro item hitem
    obtain ⟨⟨a, c⟩, hmem, rfl⟩ := List.mem_map.mp hitem
    rw [Std.ExtTreeMap.mem_toList_iff_getElem?_eq_some] at hmem
    exact hs.inside a _ (form?_of_getElem? hmem)
  have hplace : (new s.limits).placeAll (s.dump.map fun (a, content) => (a.given, content)) =
      .ok (s.cells.map fun _ c => c.content) := by
    rw [placeAll_given (s := new s.limits) hin, ← htexts, insertMany_toList]
  have hload := load_texts (new s.limits) (s.dump.map fun (a, content) => (a.given, content))
  rw [hplace, List.map_map] at hload
  exact hload

theorem getElem?_contents {s : Sheet} {a : Address} {content : String} :
    (s.cells.map fun _ c => c.content)[a]? = some content ↔
      ∃ kind, s.form? a = some (content, kind) := by
  rw [Std.ExtTreeMap.getElem?_map, Option.map_eq_some_iff]
  constructor
  · rintro ⟨c, hc, rfl⟩
    exact ⟨c.kind, form?_of_getElem? hc⟩
  · rintro ⟨kind, ha⟩
    obtain ⟨c, hc, hsame⟩ := Option.map_eq_some_iff.mp ha
    exact ⟨c, hc, congrArg Prod.fst hsame⟩

/-- Where no formula is refused for a cycle, the edges that there are already tell what the contents will
be taken for when they are entered anew. -/
theorem foreseen_contents {s : Sheet} (hs : s.Formed) (hfree : ∀ a, ¬s.Circular a) :
    Foreseen (new s.limits) (s.cells.map fun _ c => c.content) (fun _ => True) s.graph.Reads where
  inside a ha := by
    rw [Std.ExtTreeMap.mem_iff_isSome_getElem?, Option.isSome_iff_exists] at ha
    obtain ⟨content, hcontent⟩ := ha
    obtain ⟨kind, hform⟩ := getElem?_contents.mp hcontent
    exact hs.inside a _ hform
  visible a content hcontent := by
    obtain ⟨kind, hform⟩ := getElem?_contents.mp hcontent
    exact hs.visible a _ hform
  acyclic a _ := hs.acyclic a
  kind a content _ hcontent := by
    obtain ⟨kind, hform⟩ := getElem?_contents.mp hcontent
    refine ⟨kind, hs.fits a _ hform, ne_cycle_of_form? (hfree a) hform, fun targets htargets b hb => ?_⟩
    refine ⟨trivial, ?_⟩
    rwa [Graph.Reads, hs.reads a targets (by rw [hform]; exact htargets)]

/-- Entered anew, the contents of a sheet give a sheet that differs in values only, unless a refusal
cannot be told of. -/
theorem putAll_contents {s : Sheet} (hs : s.Formed) (hfree : ∀ a, ¬s.Circular a) :
    (∃ b, (Batch.start (new s.limits)).putAll (s.cells.map fun _ c => c.content).toList = .ok b ∧
        Alike s b.sheet ∧ (∀ a ∈ s.cells, a ∈ b.touched) ∧
          (∀ d ∈ b.diagnostics, d.rejection.kind ≠ .cycle) ∧ s.Tellable) ∨
      (∃ b, (Batch.start (new s.limits)).putAll (s.cells.map fun _ c => c.content).toList =
          .error b) ∧ ¬s.Tellable := by
  have hvacant : ∀ x, (new s.limits).form? x = none := fun x => by simp [new, Sheet.form?]
  rcases (foreseen_contents hs hfree).putAll formed_of_empty hvacant with
    ⟨b, hput, hb⟩ | ⟨hput, a, content, reason, hcontent, hfits, hlong, hcycle⟩
  · have hkind : ∀ {x content kind kind'}, s.form? x = some (content, kind) →
        b.sheet.form? x = some (content, kind') → kind' = kind := fun hx hx' =>
      hb.kind_unique formed_of_empty trivial hx' (hs.fits _ _ hx) (ne_cycle_of_form? (hfree _) hx)
    have hform : ∀ x, s.form? x = b.sheet.form? x := by
      intro x
      have hcontent := hb.content x
      rw [if_neg (by simp)] at hcontent
      cases hx' : b.sheet.form? x with
      | some form =>
        rw [hx', Option.map_some] at hcontent
        obtain ⟨kind, hx⟩ := getElem?_contents.mp hcontent.symm
        rw [hx, ← hkind hx hx']
      | none =>
        rw [hx', Option.map_none, eq_comm, Std.ExtTreeMap.getElem?_map,
          Option.map_eq_none_iff] at hcontent
        rw [Sheet.form?, hcontent, Option.map_none]
    have hlike : Alike s b.sheet :=
      hs.alike (hb.staged.formed formed_of_empty) hfree hb.staged.limits.symm hform
    refine .inl ⟨b, hput, hlike, fun a ha => ?_,
      fun d hd hcycle => hb.diagnostics d hd hcycle trivial, ?_⟩
    · exact hb.touched a (by rwa [Std.ExtTreeMap.mem_map]) (by simp)
    · exact hlike.symm.tellable (hb.staged.tellable (tellable_of_empty rfl))
  · refine .inr ⟨hput, fun htellable => ?_⟩
    obtain ⟨kind, hform⟩ := getElem?_contents.mp hcontent
    obtain rfl := (hs.fits a _ hform).unique hfits (ne_cycle_of_form? (hfree a) hform) fun heq =>
      hcycle trivial (Cell.Kind.rejected.inj heq)
    exact Bool.false_ne_true (hlong.symm.trans (tellable_iff.mp htellable a content reason hform))

/-- Whether a sheet comes back as it was, with no formula refused for a cycle, when its contents are
loaded into an empty sheet of its bounds. -/
def Reproduced (s : Sheet) : Prop :=
  ∃ found, s.reload.answer = .ok found ∧ (∀ d ∈ found, d.rejection.kind ≠ .cycle) ∧
    s.reload.sheet.dump = s.dump ∧ s.reload.sheet.cells = s.cells ∧ s.reload.sheet.graph = s.graph

theorem reproduced_iff {s : Sheet} (hs : s.Formed) (hfree : ∀ a, ¬s.Circular a) :
    s.Reproduced ↔ s.Consistent ∧ s.Tellable := by
  unfold Reproduced dump
  rw [reload_eq hs]
  unfold enterAll
  rcases putAll_contents hs hfree with
    ⟨b, hput, hlike, htouched, hdiagnostics, htellable⟩ | ⟨⟨b, hput⟩, huntold⟩
  · rw [hput]
    have hb := hlike.formed hs
    have hall : ∀ a ∈ s.cells, a ∈ b.sheet.affected b.touched := by
      intro a ha
      rw [mem_affected hb.sound]
      exact .inl (htouched a ha)
    dsimp only
    rw [conclude_eq]
    constructor
    · rintro ⟨found, hanswer, -, -, hcells, hgraph⟩
      refine ⟨consistent_iff.mpr fun a c hc => ?_, htellable⟩
      split at hanswer
      · rename_i u hpass
        rw [hpass] at hcells hgraph
        obtain ⟨hlike', -, hsettled⟩ := recalculate_eq_ok hb hpass
        have ha : a ∈ s.cells := by
          rw [Std.ExtTreeMap.mem_iff_isSome_getElem?, hc]
          rfl
        have hcells' : u.cells = s.cells := hcells
        obtain ⟨v, hv, hvalue⟩ := hsettled a (hall a ha) c (hcells' ▸ hc)
        refine ⟨v, hv, .inl ?_⟩
        rw [← hvalue]
        refine (valueOf_congr hs (hlike.trans hlike').limits.symm hc rfl rfl fun x _ => ?_).symm
        rw [hcells']
      · contradiction
    · rintro ⟨hconsistent, -⟩
      obtain ⟨u, hpass, hcells⟩ := hlike.recalculate hs (hconsistent.settled hfree) hall
      rw [hpass]
      refine ⟨b.found, rfl, fun d hd => ?_, ?_, hcells, ?_⟩
      · exact hdiagnostics d (List.mem_reverse.mp hd)
      · exact congrArg (fun cells : AddressMap Cell => cells.toList.map _) hcells
      · exact (hlike.trans (recalculate_eq_ok hb hpass).1).graph.symm
  · rw [hput]
    constructor
    · rintro ⟨found, hanswer, -⟩
      contradiction
    · rintro ⟨-, htellable⟩
      exact absurd htellable huntold

theorem mem_dump {s : Sheet} {a : Address} {content : String} :
    (a, content) ∈ s.dump ↔ ∃ kind, s.form? a = some (content, kind) := by
  unfold dump
  rw [List.mem_map]
  constructor
  · rintro ⟨⟨x, c⟩, hmem, heq⟩
    cases heq
    rw [Std.ExtTreeMap.mem_toList_iff_getElem?_eq_some] at hmem
    exact ⟨c.kind, form?_of_getElem? hmem⟩
  · rintro ⟨kind, ha⟩
    obtain ⟨c, hc, hsame⟩ := Option.map_eq_some_iff.mp ha
    cases hsame
    exact ⟨(a, c), Std.ExtTreeMap.mem_toList_iff_getElem?_eq_some.mpr hc, rfl⟩

/-- Two consistent sheets without a formula refused for a cycle are the same if their bounds and contents
are. -/
theorem eq_of_dump_eq {s t : Sheet} (hs : s.Formed) (ht : t.Formed) (hfree : ∀ a, ¬s.Circular a)
    (hfree' : ∀ a, ¬t.Circular a) (hconsistent : s.Consistent) (hconsistent' : t.Consistent)
    (hlimits : s.limits = t.limits) (hdump : s.dump = t.dump) :
    s.cells = t.cells ∧ s.graph = t.graph := by
  have hform : ∀ a, s.form? a = t.form? a := by
    intro a
    cases he : s.form? a with
    | none =>
      cases he' : t.form? a with
      | none => rfl
      | some e =>
        obtain ⟨kind, hkind⟩ := mem_dump.mp (hdump ▸ mem_dump.mpr ⟨e.2, he'⟩)
        rw [he] at hkind
        contradiction
    | some e =>
      obtain ⟨content, kind⟩ := e
      obtain ⟨kind', he'⟩ := mem_dump.mp (hdump ▸ mem_dump.mpr ⟨kind, he⟩)
      rw [he']
      obtain rfl := (hs.fits a _ he).unique (hlimits ▸ ht.fits a _ he')
        (ne_cycle_of_form? (hfree a) he) (ne_cycle_of_form? (hfree' a) he')
      rfl
  have hlike := hs.alike ht hfree hlimits hform
  refine ⟨Std.ExtTreeMap.ext_getElem? fun a => ?_, hlike.graph⟩
  exact hlike.agree hs (p := fun _ => True) (fun _ _ _ _ => trivial)
    (fun x _ => .inr ⟨hconsistent.settled hfree x, hconsistent'.settled hfree' x⟩) a trivial

/-! ## Whole runs -/

/-- A history that is not interrupted leaves a sheet that comes back from its contents, if it has no
formula refused for a cycle. After any other history that is so just where the sheet is consistent and
all refusals in it can be told of. So two histories that leave consistent sheets with the same bounds and
contents leave the same values and edges. -/
theorem reproduced_run (limits : Limits) (history : List Edit)
    (hfree : ∀ a, ¬((new limits).run history).Circular a) :
    ((new limits).Uninterrupted history → ((new limits).run history).Reproduced) ∧
      (((new limits).run history).Reproduced ↔
        ((new limits).run history).Consistent ∧ ((new limits).run history).Tellable) ∧
      ∀ (limits' : Limits) (history' : List Edit),
        (∀ a, ¬((new limits').run history').Circular a) →
          ((new limits).run history).Consistent → ((new limits').run history').Consistent →
            ((new limits).run history).limits = ((new limits').run history').limits →
              ((new limits).run history).dump = ((new limits').run history').dump →
                ((new limits).run history).cells = ((new limits').run history').cells ∧
                  ((new limits).run history).graph = ((new limits').run history').graph := by
  have hs := formed_run limits history
  have hiff := reproduced_iff hs hfree
  refine ⟨fun h => hiff.mpr ?_, hiff, fun limits' history' hfree' h h' hlimits hdump => ?_⟩
  · exact ⟨consistent_of_uninterrupted h, tellable_of_uninterrupted h⟩
  · exact eq_of_dump_eq hs (formed_run limits' history') hfree hfree' h h' hlimits hdump

/-- The formulas name cells set before them. -/
theorem reproduced_linked :
    ((new standard).run (setEach [(⟨0, 0⟩, "1.50"), (⟨0, 1⟩, "=A1*2"), (⟨2, 1⟩, "=SUM(A1:B2)&C9"),
      (⟨3, 3⟩, "=1+")])).Reproduced :=
  (reproduced_run standard _
    (not_circular_of_names (by simp [Limits.Holds, standard]) (by decide +kernel) (by decide +kernel))).1
    (uninterrupted_setEach formed_of_empty (bounded_new _) (by decide +kernel) (by decide +kernel)
      fun _ => by decide +kernel)

end Spreadsheet.Sheet
