import Spreadsheet.Proofs.Graph.Deadlock
import Spreadsheet.Proofs.Sheet.Telling
import Spreadsheet.Proofs.Sheet.Unfailing

/-! What the event log tells of an edit: a warning for each of its diagnostics, then the calculation with
the number of the cells that are left in error, and at last that the edit is complete. An edit that
calculates nothing has no more than its diagnostics to tell of. -/
namespace Spreadsheet.Sheet

variable {s t u : Sheet} {a x : Address} {cells : AddressSet} {events : List Event}
  {found : List Diagnostic}

/-! ## What a pass counts -/

/-- Whether a cell is in error. -/
def errored (s : Sheet) (a : Address) : Bool := s.cells[a]?.any fun c => c.state == .errored

theorem errored_of_settled (h : s.Settled a) : s.errored a = s.showsError a := by
  unfold errored showsError contents
  cases hc : s.cells[a]? with
  | none => rfl
  | some c =>
    obtain ⟨v, hv, -⟩ := h c hc
    cases herror : v.isError <;> simp [Cell.state, Cell.value?, Cell.Result.value?, hv, herror]

theorem showsError_congr (h : t.cells[a]? = s.cells[a]?) : t.showsError a = s.showsError a := by
  unfold showsError contents
  rw [h]

/-- The errors that come up while cells are calculated are those that are left at the end. -/
theorem goThrough_eq_ok {p q : Pass} {order : List Address} (hnodup : order.Nodup)
    (h : p.goThrough order = .ok q) :
    (∀ x, x ∉ order → q.sheet.cells[x]? = p.sheet.cells[x]?) ∧
      q.errors = p.errors + order.countP q.sheet.showsError := by
  induction order generalizing p with
  | nil =>
    cases h
    exact ⟨fun _ _ => rfl, rfl⟩
  | cons a rest ih =>
    obtain ⟨ha, hnodup⟩ := List.nodup_cons.mp hnodup
    unfold Pass.goThrough at h
    split at h
    · rename_i t ht
      obtain ⟨hkept, herrors⟩ := ih hnodup h
      obtain ⟨-, hothers, -⟩ := calculate_eq_ok ht
      refine ⟨fun x hx => ?_, ?_⟩
      · rw [List.mem_cons, not_or] at hx
        rw [hkept x hx.2, hothers x hx.1]
      · -- the cell is not calculated again
        have hsame : q.sheet.showsError a = t.showsError a := showsError_congr (hkept a ha)
        rw [herrors, List.countP_cons, hsame]
        dsimp only
        split <;> omega
    · cases h

/-- Whether the cells of the last calculation have an order, in which they are listed: none of them is
stuck on a cycle or behind one. -/
def Unstuck (s : Sheet) : Prop :=
  ∃ cells : AddressSet, (∀ x, x ∈ cells ↔ x ∈ s.recalculated) ∧ s.graph.order? cells = .ok s.recalculated

/-- What a pass that comes to its end counts and lists. -/
theorem counts_of_recalculate (hs : s.Formed) (h : s.recalculate cells = .ok u) :
    s.errorsIn cells = u.recalculated.countP u.errored ∧ u.Unstuck := by
  obtain ⟨hlike, -, hsettled⟩ := recalculate_eq_ok hs h
  obtain ⟨p, hpass, rfl⟩ := map_eq_ok.mp h
  have herrors : s.errorsIn cells = p.errors := by
    unfold errorsIn
    rw [hpass]
    rfl
  obtain ⟨q, hq, rfl⟩ := map_eq_ok.mp hpass
  dsimp only at hlike hsettled herrors ⊢
  have hmem : ∀ x, x ∈ (s.graph.schedule (cells.filter fun a => s.cells.contains a)).order ↔
      x ∈ cells.filter fun a => s.cells.contains a :=
    fun x => hs.acyclic.mem_order_schedule hs.sound
  refine ⟨?_, _, fun x => (hmem x).symm, ?_⟩
  · rw [herrors, (goThrough_eq_ok (Graph.nodup_order_schedule hs.sound _) hq).2, Nat.zero_add]
    refine List.countP_congr fun x hx => ?_
    rw [errored_of_settled (hsettled x (mem_occupied.mp ((hmem x).mp hx)).1)]
    rfl
  · rw [← hlike.graph]
    refine (Graph.order?_eq_ok hs.sound fun x hround => hs.acyclic x ?_).1
    exact Relation.TransGen.mono (fun _ _ hread => hread.2.2) _ _ hround

/-! ## What is reported of an edit -/

/-- What is reported of an edit whose cells are calculated: its diagnostics, the calculation, and then
that it is complete. -/
structure Calculated (u : Sheet) (events : List Event) (found : List Diagnostic) : Prop where
  reported : ∃ trigger after, (∀ e ∈ after, e.topic.completes) ∧
    events = found.map .rejected ++
      .recalculated trigger u.recalculated.length (u.recalculated.countP u.errored) :: after
  unstuck : u.Unstuck

/-- What is reported of an edit that calculates nothing. -/
structure Rested (u : Sheet) (events : List Event) (found : List Diagnostic) : Prop where
  reported : events = found.map .rejected
  nothing : u.recalculated = []

/-- What is reported of an edit that may be idle. -/
def Reported (idle : Prop) (u : Sheet) (events : List Event) (found : List Diagnostic) : Prop :=
  ¬idle ∧ Calculated u events found ∨ idle ∧ Rested u events found

theorem Calculated.concat (h : Calculated u events found) {e : Event} (he : e.topic.completes) :
    Calculated u (events ++ [e]) found := by
  obtain ⟨⟨trigger, after, hafter, rfl⟩, hunstuck⟩ := h
  refine ⟨⟨trigger, after ++ [e], ?_, by simp⟩, hunstuck⟩
  rw [List.forall_mem_append]
  exact ⟨hafter, by simpa using he⟩

theorem calculated_conclude {α : Type} (ht : t.Formed) {trigger : Option Address} {after : List Event}
    {answer answer' : α} (found : List Diagnostic) (hafter : ∀ e ∈ after, e.topic.completes)
    (h : (t.conclude trigger cells (found.map .rejected) after answer).answer = .ok answer') :
    answer = answer' ∧
      Calculated (t.conclude trigger cells (found.map .rejected) after answer).sheet
        (t.conclude trigger cells (found.map .rejected) after answer).events found := by
  rw [conclude_eq] at h ⊢
  split at h
  · rename_i u hpass
    obtain ⟨herrors, hunstuck⟩ := counts_of_recalculate ht hpass
    split at h
    · rename_i hwritable
      rw [if_pos hwritable]
      cases h
      exact ⟨rfl, ⟨trigger, after, hafter, by rw [herrors]⟩, hunstuck⟩
    · cases h
  · cases h

/-! ## Single cells -/

theorem reported_clearAt (hs : s.Formed) {d : Option Diagnostic} (h : (s.clearAt a).answer = .ok d) :
    d = none ∧ Reported (a ∉ s.cells) (s.clearAt a).sheet (s.clearAt a).events [] := by
  unfold clearAt at h ⊢
  dsimp only at h ⊢
  split at h
  · rename_i hoccupied
    rw [if_pos hoccupied]
    rw [Std.ExtTreeMap.contains_iff_mem] at hoccupied
    obtain ⟨rfl, hcalculated⟩ :=
      calculated_conclude (hs.vacate a) [] (List.forall_mem_singleton.mpr rfl) h
    exact ⟨rfl, .inl ⟨not_not_intro hoccupied, hcalculated⟩⟩
  · rename_i hvacant
    rw [if_neg hvacant]
    rw [Std.ExtTreeMap.contains_iff_mem] at hvacant
    cases h
    exact ⟨rfl, .inr ⟨hvacant, rfl, rfl⟩⟩

theorem reported_enter (hs : s.Formed) (ha : s.limits.Holds a) {content : String}
    (hcontent : Text.isAllBlank content = false) {d : Option Diagnostic}
    (h : (s.enter a content).answer = .ok d) :
    d = (s.stage a content).2.map (Diagnostic.mk a) ∧
      Reported (d.any fun d => d.rejection.kind = .cycle) (s.enter a content).sheet
        (s.enter a content).events d.toList := by
  have hafter := s.afterStage_enter a content
  generalize s.enter a content = r at hafter h ⊢
  cases hafter with
  | halted _ => cases h
  | rested hpath _ =>
    cases h
    rw [hpath]
    exact ⟨rfl, .inr ⟨rfl, rfl, rfl⟩⟩
  | concluded hfound hfree _ =>
    obtain ⟨rfl, hcalculated⟩ :=
      calculated_conclude (hs.stage ha hcontent) _ (List.forall_mem_singleton.mpr rfl) h
    refine ⟨hfound, .inl ⟨?_, hcalculated⟩⟩
    rw [hfound]
    cases hrejection : (s.stage a content).2 with
    | none => simp
    | some r =>
      cases r with
      | circular path => exact absurd hrejection (hfree path)
      | _ => simp [Rejection.kind]

/-! ## Many cells -/

theorem calculated_enterAll (hs : s.Formed) {contents : AddressMap String}
    (hin : ∀ item ∈ contents.toList, s.limits.Holds item.1)
    (h : (s.enterAll contents).answer = .ok found) :
    Calculated (s.enterAll contents).sheet (s.enterAll contents).events found := by
  have hafter := afterPuts_enterAll hin
  generalize s.enterAll contents = r at hafter h ⊢
  cases hafter with
  | halted _ _ _ => cases h
  | concluded _ hstaged =>
    obtain ⟨rfl, hcalculated⟩ :=
      calculated_conclude (hstaged.formed hs) _ (List.forall_mem_singleton.mpr rfl) h
    exact hcalculated

theorem calculated_load (hs : s.Formed) {items : List (Address.Given × Datum)}
    (h : (s.load items).answer = .ok found) :
    Calculated (s.load items).sheet (s.load items).events found := by
  have hafter := s.afterLoad_load items
  generalize s.load items = r at hafter h ⊢
  cases hafter with
  | entered hplaces _ => exact calculated_enterAll hs (holds_of_texts hplaces) h
  | refused _ | unloadable _ _ _ _ | halted _ _ _ _ => cases h

/-! ## Lines -/

theorem calculated_restructure (hs : s.Formed) {e : LineEdit} (hindex : 0 ≤ e.index)
    (hlast : 0 < e.count ∨ e.stop ≤ s.lineCount e.axis) (h : (s.restructure e).answer = .ok found) :
    Calculated (s.restructure e).sheet (s.restructure e).events found := by
  have hafter := s.afterMove_restructure e
  generalize s.restructure e = r at hafter h ⊢
  cases hafter with
  | refused _ => cases h
  | told hcontents hfound =>
    cases h
    have hentered := calculated_enterAll formed_of_empty (fun item hitem =>
      inside_movedContents hs hindex hlast hcontents item.1 (mem_of_mem_toList hitem)) hfound
    exact hentered.concat rfl
  | untold _ _ _ => cases h
  | failed _ _ => cases h

theorem MovesLines.calculated {r : Edited (Except Fault (List Diagnostic))} (hmoves : s.MovesLines r)
    (hs : s.Formed) (h : r.answer = .ok found) : Calculated r.sheet r.events found := by
  cases hmoves with
  | refused _ => cases h
  | moved hindex _ hlast => exact calculated_restructure hs hindex hlast h

/-! ## Every edit -/

/-- An edit with its diagnostics as its answer. -/
def Edited.collect {α : Type} (diagnostics : α → List Diagnostic) (e : Edited (Except Fault α)) :
    Edited (Except Fault (List Diagnostic)) := ⟨e.sheet, e.events, e.answer.map diagnostics⟩

/-- What an edit leads to, with the diagnostics that it answers. -/
def respond (s : Sheet) : Call → Edited (Except Fault (List Diagnostic))
  | .set place content => (s.set place content).collect Option.toList
  | .clear place => (s.clear place).collect Option.toList
  | .load items => s.load items
  | .recalculateAll => s.recalculateAll.collect fun _ => []
  | .insertLines axis index count => s.insertLines axis index count
  | .deleteLines axis index count => s.deleteLines axis index count

theorem toFault_respond (s : Sheet) (call : Call) : (s.respond call).toFault = s.attempt call := by
  have hcollect : ∀ {α : Type} (diagnostics : α → List Diagnostic) (e : Edited (Except Fault α)),
      (e.collect diagnostics).toFault = e.toFault := by
    rintro α diagnostics ⟨sheet, events, answer⟩
    cases answer <;> rfl
  cases call with
  | set place content => exact hcollect ..
  | clear place => exact hcollect ..
  | recalculateAll => exact hcollect ..
  | _ => rfl

/-- The edits that calculate nothing: content is refused for a cycle, or an empty cell is emptied. -/
inductive Idle (s : Sheet) : Call → List Diagnostic → Prop where
  | refused {place : Address.Given} {content : Datum} {d : Diagnostic} :
    d.rejection.kind = .cycle → Idle s (.set place content) [d]
  | blank {place : Address.Given} {a : Address} {content : String} :
    s.locate place = .ok a → a ∉ s.cells → Text.isAllBlank content →
      Idle s (.set place (.text content)) []
  | cleared {place : Address.Given} {a : Address} :
    s.locate place = .ok a → a ∉ s.cells → Idle s (.clear place) []

theorem idle_blank_iff {place : Address.Given} {content : String} (hplace : s.locate place = .ok a)
    (hblank : Text.isAllBlank content) : s.Idle (.set place (.text content)) [] ↔ a ∉ s.cells := by
  constructor
  · intro hidle
    cases hidle with
    | blank hplace' hvacant _ =>
      cases hplace.symm.trans hplace'
      exact hvacant
  · exact fun hvacant => .blank hplace hvacant hblank

theorem idle_visible_iff {place : Address.Given} {content : String} {d : Option Diagnostic}
    (hvisible : Text.isAllBlank content = false) :
    s.Idle (.set place (.text content)) d.toList ↔ d.any fun d => d.rejection.kind = .cycle := by
  cases d with
  | none =>
    simp only [Option.toList_none, Option.any_none, Bool.false_eq_true, iff_false]
    intro hidle
    cases hidle with
    | blank _ _ hblank => simp [hvisible] at hblank
  | some d =>
    simp only [Option.toList_some, Option.any_some, decide_eq_true_eq]
    constructor
    · intro hidle
      cases hidle with
      | refused hcycle => exact hcycle
    · exact .refused

theorem idle_clear_iff {place : Address.Given} (hplace : s.locate place = .ok a) :
    s.Idle (.clear place) [] ↔ a ∉ s.cells := by
  constructor
  · intro hidle
    cases hidle with
    | cleared hplace' hvacant =>
      cases hplace.symm.trans hplace'
      exact hvacant
  · exact .cleared hplace

theorem reported_set (hs : s.Formed) {place : Address.Given} {content : Datum} {d : Option Diagnostic}
    (h : (s.set place content).answer = .ok d) :
    Reported (s.Idle (.set place content) d.toList) (s.set place content).sheet
      (s.set place content).events d.toList := by
  unfold set at h ⊢
  split at h
  · rename_i content
    split at h
    · cases h
    · rename_i a hplace
      split at h
      · rename_i hblank
        rw [if_pos hblank]
        obtain ⟨rfl, hreported⟩ := reported_clearAt hs h
        rwa [Option.toList_none, idle_blank_iff hplace hblank]
      · rename_i hvisible
        rw [if_neg hvisible, idle_visible_iff (Bool.eq_false_iff.mpr hvisible)]
        exact (reported_enter hs (holds_of_locate hplace) (Bool.eq_false_iff.mpr hvisible) h).2
  · cases h

theorem reported_clear (hs : s.Formed) {place : Address.Given} {d : Option Diagnostic}
    (h : (s.clear place).answer = .ok d) :
    Reported (s.Idle (.clear place) d.toList) (s.clear place).sheet (s.clear place).events d.toList := by
  unfold clear at h ⊢
  split at h
  · cases h
  · rename_i a hplace
    obtain ⟨rfl, hreported⟩ := reported_clearAt hs h
    rwa [Option.toList_none, idle_clear_iff hplace]

theorem reported_respond (hs : s.Formed) {call : Call} (h : (s.respond call).answer = .ok found) :
    Reported (s.Idle call found) (s.respond call).sheet (s.respond call).events found := by
  cases call with
  | set place content =>
    obtain ⟨d, hd, rfl⟩ := map_eq_ok.mp h
    exact reported_set hs hd
  | clear place =>
    obtain ⟨d, hd, rfl⟩ := map_eq_ok.mp h
    exact reported_clear hs hd
  | load items => exact .inl ⟨nofun, calculated_load hs h⟩
  | recalculateAll =>
    obtain ⟨_, hanswer, rfl⟩ := map_eq_ok.mp h
    exact .inl ⟨nofun, (calculated_conclude hs [] (List.forall_mem_nil _) hanswer).2⟩
  | insertLines axis index count =>
    exact .inl ⟨nofun, (movesLines_insert s axis index count).calculated hs h⟩
  | deleteLines axis index count =>
    exact .inl ⟨nofun, (movesLines_delete s axis index count).calculated hs h⟩

/-! ## The event log -/

/-- Whether entries mirror what came of an edit that may be idle. The warnings stand for the diagnostics, in
their order. Unless the edit is idle, there is one entry on a calculation, with the number of the cells that
were calculated and of those that are in error now; a second one could only tell of cells that are stuck.
What tells that the edit is complete comes last. -/
structure Mirrored (idle : Prop) (entries : List Log.Entry) (found : List Diagnostic) (u : Sheet) :
    Prop where
  warnings : List.Forall₂ Warns (entries.filter fun e => e.level = .warning) found
  calculated : ¬idle → ∃ entry, entries.filter (fun e => e.topic = .recalculation) = [entry] ∧
    entry.level = .info ∧
    Datum.field? "cells" entry.context = some (.int u.recalculated.length) ∧
    Datum.field? "errors" entry.context = some (.int (u.recalculated.countP u.errored))
  unstuck : ¬idle → u.Unstuck
  nothing : idle → entries.filter (fun e => e.topic = .recalculation) = [] ∧ u.recalculated = []
  last : entries.Pairwise fun before after => before.topic.completes → after.topic.completes

theorem Reported.mirrored {idle : Prop} {told : List Told}
    (h : Reported idle u (told.map Told.event) found) : Mirrored idle (told.map Told.entry) found u := by
  have hwarnings := Told.forall₂_warns told
  have hcalculations := Told.map_event_filter told .recalculation
  rcases h with ⟨hbusy, ⟨trigger, after, hafter, hevents⟩, hunstuck⟩ | ⟨hidle, hevents, hnothing⟩
  · rw [hevents, Event.diagnostics_of_rejected (List.forall_mem_cons.mpr
      ⟨rfl, fun e he => Event.diagnostic?_of_completes (hafter e he)⟩)] at hwarnings
    rw [hevents, Event.recalculations_of_rejected, List.filter_cons_of_pos rfl,
      Event.recalculations_of_completes hafter] at hcalculations
    obtain ⟨t, hfilter, ht⟩ := List.map_eq_singleton_iff.mp hcalculations
    refine ⟨hwarnings, fun _ => ⟨t.entry, ?_, ?_⟩, fun _ => hunstuck, fun h => absurd h hbusy, ?_⟩
    · rw [Told.filter_topic, hfilter]
      rfl
    · unfold Told.entry
      rw [ht]
      exact ⟨rfl, rfl, rfl⟩
    · rw [Told.pairwise_completes_iff, hevents, List.append_cons]
      refine Event.pairwise_completes (fun e he => ?_) hafter
      rcases List.mem_append.mp he with hrejected | hcalculation
      · obtain ⟨d, -, rfl⟩ := List.mem_map.mp hrejected
        exact Event.completes_rejected d
      · rw [List.mem_singleton.mp hcalculation]
        rfl
  · rw [← List.append_nil (found.map Event.rejected)] at hevents
    rw [hevents, Event.diagnostics_of_rejected (List.forall_mem_nil _)] at hwarnings
    rw [hevents, Event.recalculations_of_rejected, List.filter_nil, List.map_eq_nil_iff] at hcalculations
    refine ⟨hwarnings, fun h => absurd hidle h, fun h => absurd hidle h, fun _ => ⟨?_, hnothing⟩, ?_⟩
    · rw [Told.filter_topic, hcalculations]
      rfl
    · rw [Told.pairwise_completes_iff, hevents]
      exact Event.pairwise_completes (List.forall_mem_map.mpr fun d _ => Event.completes_rejected d)
        (List.forall_mem_nil _)

/-- After any edits, also such that failed, the event log mirrors what comes of a further one that ends. All
that is reported of the edit is written, but for an entry with a number that is too long to write. -/
theorem attempts_mirrored (limits : Limits) (calls : List Call) (call : Call) :
    let s := (new limits).attempts calls
    let r := s.respond call
    r.toFault = s.attempt call ∧
      ∀ found, r.answer = .ok found → ∀ told : List Told, told.map Told.event = r.events →
        Mirrored (s.Idle call found) (told.map Told.entry) found r.sheet ∧
        (∀ k : Log.Sink, k.present → k.listening →
          k.writeAll ((told.map Told.writing).filter fun w => Json.hasText (w.2.record w.1)) =
            .ok (k.emitAll (told.map Told.writing))) ∧
        ∀ t ∈ told,
          Json.hasText (t.entry.record t.time) ↔ ∀ n ∈ t.event.numbers, Number.isWritable n := by
  intro s r
  refine ⟨toFault_respond s call, fun found hanswer told htold => ?_⟩
  have hreported := reported_respond (formed_attempts limits calls).1 hanswer
  rw [← htold] at hreported
  exact ⟨hreported.mirrored,
    fun k hpresent hlistening => Log.Sink.writeAll_filter_hasText hpresent hlistening _,
    fun t _ => t.hasText_iff⟩

private def faulty : List (Address × String) :=
  [(⟨0, 2⟩, "=C1"), (⟨0, 1⟩, "=SUM(A1:XFD1048576)"), (⟨0, 0⟩, "=1+"), (⟨1, 0⟩, "5")]

private theorem holds_faulty : ∀ item ∈ ((∅ : AddressMap String).insertMany faulty).toList,
    (new standard).limits.Holds item.1 := by
  have hin : ∀ item ∈ faulty, (new standard).limits.Holds item.1 := by
    simp [faulty, new, Limits.Holds, standard]
  exact holds_of_placeAll (placeAll_given hin)

private theorem exists_answer_faulty : ∃ found : List Diagnostic,
    ((new standard).enterAll ((∅ : AddressMap String).insertMany faulty)).answer = .ok found ∧
      found.map (fun d => (d.address, d.rejection.kind)) =
        [(⟨0, 0⟩, .malformed), (⟨0, 1⟩, .invalidRange), (⟨0, 2⟩, .cycle)] := by
  have hs : (new standard).Finishing := finishing_attempts (by decide +kernel) []
  have hfault := (hs.faultOf_enterAll holds_faulty).2
  have hput : (((Batch.start (new standard)).putAll
      ((∅ : AddressMap String).insertMany faulty).toList).map fun b =>
        b.found.map fun d => (d.address, d.rejection.kind)).toOption =
      some [(⟨0, 0⟩, .malformed), (⟨0, 1⟩, .invalidRange), (⟨0, 2⟩, .cycle)] := by
    decide +kernel
  have hafter := afterPuts_enterAll holds_faulty
  generalize (new standard).enterAll _ = r at hafter hfault ⊢
  cases hafter with
  | halted hstop _ _ =>
    rw [hstop] at hput
    cases hput
  | concluded hdone _ =>
    rw [hdone] at hput
    rcases answer_conclude _ _ _ _ _ with hanswer | ⟨fault, hanswer⟩
    · exact ⟨_, hanswer, Option.some.inj hput⟩
    · cases hfault _ (congrArg faultOf hanswer)

/-- Texts that are loaded in any order, of which three are refused for three reasons. There is a warning for
each of these in the order of the cells, and one entry on the calculation. -/
theorem attempts_mirrored_faulty :
    let r := (new standard).respond (.load [((⟨0, 2⟩ : Address).given, .text "=C1"),
      ((⟨0, 1⟩ : Address).given, .text "=SUM(A1:XFD1048576)"),
      ((⟨0, 0⟩ : Address).given, .text "=1+"), ((⟨1, 0⟩ : Address).given, .text "5")])
    let told := r.events.map fun e => (⟨e, "T", .zero false⟩ : Told)
    ∃ found, r.answer = .ok found ∧ told.map Told.event = r.events ∧
      found.map (fun d => (d.address, d.rejection.kind)) =
        [(⟨0, 0⟩, .malformed), (⟨0, 1⟩, .invalidRange), (⟨0, 2⟩, .cycle)] ∧
      List.Forall₂ Warns ((told.map Told.entry).filter fun e => e.level = .warning) found ∧
      ((told.map Told.entry).filter fun e => e.topic = .recalculation).length = 1 ∧
      Log.Sink.new.writeAll ((told.map Told.writing).filter fun w => Json.hasText (w.2.record w.1)) =
        .ok (Log.Sink.new.emitAll (told.map Told.writing)) := by
  intro r told
  obtain ⟨found, hfound, hkinds⟩ := exists_answer_faulty
  have hanswer : r.answer = .ok found := by
    have hload := load_texts (new standard) (faulty.map fun item => (item.1.given, item.2))
    have hplace : (new standard).placeAll (faulty.map fun item => (item.1.given, item.2)) =
        .ok ((∅ : AddressMap String).insertMany faulty) := placeAll_given (by
      simp [faulty, new, Limits.Holds, standard])
    rw [hplace] at hload
    exact (congrArg Edited.answer hload).trans hfound
  have htold : told.map Told.event = r.events := by simp [told, Function.comp_def]
  obtain ⟨hmirrored, hwritten, -⟩ := (attempts_mirrored standard [] _).2 found hanswer told htold
  obtain ⟨entry, hentry, -⟩ := hmirrored.calculated fun hidle => by cases hidle
  refine ⟨found, hanswer, htold, hkinds, hmirrored.warnings, ?_, hwritten _ rfl rfl⟩
  rw [hentry]
  rfl

end Spreadsheet.Sheet
