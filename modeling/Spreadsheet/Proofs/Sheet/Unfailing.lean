import Spreadsheet.Proofs.Sheet.Atomicity

/-! Reads, and edits of contents by texts in cells of a sheet, do not fail: within the greatest precision
every formula has a value, and every value a text. What can fail is to tell of an edit, in a row whose
number is too long to write, or of a range that is refused for a limit too long to write. -/
namespace Spreadsheet.Sheet

/-- Edits of contents by texts in cells of a sheet, with the texts in the order of their cells. -/
inductive Enters (s : Sheet) : Call → List (Address × String) → Prop where
  | set {place : Address.Given} {a : Address} (content : String) :
    s.locate place = .ok a → Enters s (.set place (.text content)) [(a, content)]
  | clear {place : Address.Given} {a : Address} :
    s.locate place = .ok a → Enters s (.clear place) [(a, "")]
  | load {items : List (Address.Given × String)} {texts : AddressMap String} :
    s.placeAll items = .ok texts →
      Enters s (.load (items.map fun (place, content) => (place, .text content))) texts.toList
  | recalculateAll : Enters s .recalculateAll []

/-- Whether an edit is about one cell, and so tells of it even if all goes well. -/
def Call.isSingle : Call → Bool
  | .set _ _ | .clear _ => true
  | _ => false

/-- Whether one of some texts, put into cells one after the other, is refused and a number is too long to
tell of it. -/
def Stops (s : Sheet) (items : List (Address × String)) : Prop :=
  ∃ before a content after b, items = before ++ (a, content) :: after ∧
    (Batch.start s).putAll before = .ok b ∧ Text.isAllBlank content = false ∧
      (b.sheet.stage a content).2.all (Rejection.isTellable a) = false

/-- Whether one of some texts is put into a cell, or empties an occupied one, in a row whose number is too
long to tell of it. -/
def Outruns (s : Sheet) (items : List (Address × String)) : Prop :=
  ∃ a content, (a, content) ∈ items ∧ (Text.isAllBlank content → a ∈ s.cells) ∧ a.isWritable = false

variable {s t : Sheet} {b : Batch} {a : Address} {content : String}
  {items : List (Address × String)}

/-! ## What stops an edit -/

theorem exists_put_eq_error : (∃ b', b.put (a, content) = .error b') ↔
    Text.isAllBlank content = false ∧
      (b.sheet.stage a content).2.all (Rejection.isTellable a) = false := by
  have hafter := afterPut_put b a content
  generalize b.put (a, content) = next at hafter ⊢
  cases hafter with
  | emptied hblank _ | kept hblank _ => simp [hblank]
  | halted hcontent hsilent => exact iff_of_true ⟨_, rfl⟩ ⟨hcontent, hsilent⟩
  | staged _ htold =>
    refine ⟨fun ⟨_, hput⟩ => (by cases hput), fun ⟨_, hsilent⟩ => ?_⟩
    rw [htold] at hsilent
    contradiction

theorem stops_iff : s.Stops items ↔ ∃ b, (Batch.start s).putAll items = .error b := by
  unfold Stops Batch.putAll
  simp only [foldlM_eq_error]
  constructor
  · rintro ⟨before, a, content, after, b, hitems, hbefore, hrefused⟩
    obtain ⟨b', hput⟩ := exists_put_eq_error.mpr hrefused
    exact ⟨b', before, (a, content), after, b, hitems, hbefore, hput⟩
  · rintro ⟨b', before, ⟨a, content⟩, after, b, hitems, hbefore, hput⟩
    exact ⟨before, a, content, after, b, hitems, hbefore, exists_put_eq_error.mp ⟨b', hput⟩⟩

theorem stops_singleton : s.Stops [(a, content)] ↔
    Text.isAllBlank content = false ∧ (s.stage a content).2.all (Rejection.isTellable a) = false := by
  rw [stops_iff]
  unfold Batch.putAll
  simp only [List.foldlM_cons, List.foldlM_nil, bind_pure]
  exact exists_put_eq_error

theorem not_stops_of_isWritable (hin : ∀ item ∈ items, s.limits.Holds item.1)
    (h : ∀ item ∈ items, item.1.isWritable) (hranges : s.limits.TellsRanges items) : ¬s.Stops items := by
  rw [stops_iff]
  rintro ⟨b, hput⟩
  obtain ⟨item, hitem, reason, hfits, hlong⟩ := exists_rejected_of_putAll hin hput
  rw [hranges.tells hitem hfits (h item hitem)] at hlong
  cases hlong

theorem not_outruns_of_isWritable (h : ∀ item ∈ items, item.1.isWritable) : ¬s.Outruns items := by
  rintro ⟨a, content, hmem, -, hlong⟩
  have hshort := h _ hmem
  rw [hlong] at hshort
  cases hshort

theorem outruns_singleton : s.Outruns [(a, content)] ↔
    (Text.isAllBlank content → a ∈ s.cells) ∧ a.isWritable = false := by
  unfold Outruns
  simp

theorem Enters.holds {call : Call} (h : s.Enters call items) :
    ∀ item ∈ items, s.limits.Holds item.1 := by
  cases h with
  | set content hplace => simpa using holds_of_locate hplace
  | clear hplace => simpa using holds_of_locate hplace
  | load hplaces => exact holds_of_placeAll hplaces
  | recalculateAll => simp

/-! ## Edits whose pass comes to its end -/

theorem answer_conclude_of_pass {α : Type} {cells : AddressSet} (h : s.recalculate cells = .ok t)
    (trigger : Option Address) (before after : List Event) (answer : α) :
    (s.conclude trigger cells before after answer).answer =
      if trigger.all Address.isWritable then .ok answer else .error .untold := by
  rw [conclude_eq]
  rw [h]
  dsimp only
  split <;> rfl

/-- Sheets in which every pass comes to its end. -/
structure Finishing (s : Sheet) : Prop where
  formed : s.Formed
  bounded : s.Bounded
  precise : s.limits.precision.val ≤ Number.maxPrecision

namespace Finishing

theorem exists_recalculate (h : s.Finishing) (cells : AddressSet) :
    ∃ t, s.recalculate cells = .ok t := Sheet.exists_recalculate h.formed h.bounded cells h.precise

theorem staged (h : s.Finishing) {touched : AddressSet} (ht : Staged s touched t) : t.Finishing :=
  ⟨ht.formed h.formed, ht.bounded h.bounded, ht.limits ▸ h.precise⟩

theorem vacate (h : s.Finishing) (a : Address) : (s.vacate a).Finishing :=
  h.staged (.vacate a (.start ∅))

theorem stage (h : s.Finishing) (ha : s.limits.Holds a) (hcontent : Text.isAllBlank content = false) :
    (s.stage a content).1.Finishing :=
  ⟨h.formed.stage ha hcontent, h.bounded.stage a content, limits_stage s a content ▸ h.precise⟩

theorem precise_precision (h : s.Finishing) : Number.Precise s.precision :=
  ⟨Int.le_trans (by omega) s.limits.precision.property, h.precise⟩

theorem faultOf_conclude {α : Type} (h : s.Finishing) (cells : AddressSet)
    (before after : List Event) (answer : α) (trigger : Option Address) :
    faultOf (s.conclude trigger cells before after answer).answer =
      if trigger.all Address.isWritable then none else some .untold := by
  obtain ⟨t, ht⟩ := h.exists_recalculate cells
  rw [answer_conclude_of_pass ht]
  split <;> rfl

theorem faultOf_clearAt (h : s.Finishing) (a : Address) :
    faultOf (s.clearAt a).answer =
      if a ∈ s.cells ∧ a.isWritable = false then some .untold else none := by
  unfold clearAt
  dsimp only
  simp only [Std.ExtTreeMap.contains_iff_mem]
  split
  · rename_i hoccupied
    rw [(h.vacate a).faultOf_conclude, Option.all_some]
    cases a.isWritable <;> simp [hoccupied]
  · rename_i hvacant
    rw [if_neg fun hlong => hvacant hlong.1]
    rfl

theorem faultOf_enter (h : s.Finishing) (ha : s.limits.Holds a)
    (hcontent : Text.isAllBlank content = false) :
    faultOf (s.enter a content).answer =
      if (s.stage a content).2.all (Rejection.isTellable a) then
        if a.isWritable then none else some .untold
      else some .halted := by
  have hstaged := h.stage ha hcontent
  have hafter := s.afterStage_enter a content
  generalize s.enter a content = r at hafter ⊢
  cases hafter with
  | halted hsilent =>
    rw [if_neg (Bool.eq_false_iff.mp hsilent)]
    rfl
  | rested hpath hrow =>
    have htold : (s.stage a content).2.all (Rejection.isTellable a) := by
      rwa [hpath, Option.all_some, Rejection.isTellable_circular]
    rw [if_pos htold, if_pos hrow]
    rfl
  | concluded _ _ htold =>
    rw [hstaged.faultOf_conclude, Option.all_some, if_pos htold]

/-! ## The faults of edits -/

variable {place : Address.Given}

/-- A single text fails if it is refused and that cannot be told of, or if it changes the cell and its
row cannot be told of. -/
theorem faultOf_set (h : s.Finishing) (hplace : s.locate place = .ok a) (content : String) :
    (faultOf (s.set place (.text content)).answer = some .halted ↔ s.Stops [(a, content)]) ∧
      (faultOf (s.set place (.text content)).answer = some .untold ↔
        ¬s.Stops [(a, content)] ∧ s.Outruns [(a, content)]) ∧
      ∀ fault, faultOf (s.set place (.text content)).answer = some fault →
        fault = .halted ∨ fault = .untold := by
  have hset : s.set place (.text content) =
      if Text.isAllBlank content then s.clearAt a else s.enter a content := by
    unfold set
    dsimp only
    rw [hplace]
  rw [hset, stops_singleton, outruns_singleton]
  cases hblank : Text.isAllBlank content with
  | true =>
    rw [if_pos rfl, h.faultOf_clearAt]
    split <;> simp_all
  | false =>
    rw [if_neg Bool.false_ne_true, h.faultOf_enter (holds_of_locate hplace) hblank]
    cases a.isWritable <;> cases (s.stage a content).2.all (Rejection.isTellable a) <;> simp

theorem faultOf_enterAll (h : s.Finishing) {texts : AddressMap String}
    (hin : ∀ item ∈ texts.toList, s.limits.Holds item.1) :
    (faultOf (s.enterAll texts).answer = some .halted ↔ s.Stops texts.toList) ∧
      ∀ fault, faultOf (s.enterAll texts).answer = some fault → fault = .halted := by
  rw [stops_iff]
  have hafter := afterPuts_enterAll hin
  generalize s.enterAll texts = r at hafter ⊢
  cases hafter with
  | halted hput _ _ =>
    rw [hput]
    simp [faultOf]
  | concluded hput hstaged =>
    rw [hput, (h.staged hstaged).faultOf_conclude]
    simp

theorem faultOf_recalculateAll (h : s.Finishing) : faultOf s.recalculateAll.answer = none := by
  unfold recalculateAll
  rw [h.faultOf_conclude]
  rfl

/-- How an edit of contents by texts in cells of a sheet can fail. -/
theorem answer_attempt (h : s.Finishing) {call : Call} (hcall : s.Enters call items) :
    ((s.attempt call).answer = some .halted ↔ s.Stops items) ∧
      ((s.attempt call).answer = some .untold ↔
        call.isSingle ∧ ¬s.Stops items ∧ s.Outruns items) ∧
      ∀ fault, (s.attempt call).answer = some fault → fault = .halted ∨ fault = .untold := by
  cases hcall with
  | set content hplace =>
    obtain ⟨hhalted, huntold, honly⟩ := h.faultOf_set hplace content
    exact ⟨hhalted, huntold.trans (and_iff_right rfl).symm, honly⟩
  | clear hplace =>
    obtain ⟨hhalted, huntold, honly⟩ := h.faultOf_set hplace ""
    rw [← clear_eq_set] at hhalted huntold honly
    exact ⟨hhalted, huntold.trans (and_iff_right rfl).symm, honly⟩
  | @load items texts hplaces =>
    have hload : (s.attempt (.load (items.map fun (place, content) => (place, .text content)))).answer =
        faultOf (s.enterAll texts).answer := by
      unfold attempt
      dsimp only
      rw [load_texts, hplaces]
      rfl
    obtain ⟨hhalted, honly⟩ := h.faultOf_enterAll (holds_of_placeAll hplaces)
    rw [hload]
    refine ⟨hhalted, ⟨fun huntold => ?_, fun hsingle => ?_⟩, fun fault hfault => .inl (honly _ hfault)⟩
    · cases honly _ huntold
    · cases hsingle.1
  | recalculateAll =>
    have hnone : (s.attempt .recalculateAll).answer = none := h.faultOf_recalculateAll
    rw [hnone]
    unfold Call.isSingle Stops
    simp

end Finishing

/-! ## Reads -/

theorem display_of_locate {place : Address.Given} (h : s.locate place = .ok a) :
    s.display place = match s.cells[a]? with
      | none => .ok ""
      | some c => (c.display s.precision).mapError .precision := by
  unfold display cell?
  rw [h]
  cases hc : s.cells[a]? with
  | none =>
    simp only [Except.map, hc]
    rfl
  | some c =>
    simp only [Except.map, hc]
    rfl

namespace Finishing

theorem exists_display (h : s.Finishing) {place : Address.Given} (hplace : s.locate place = .ok a) :
    ∃ text, s.display place = .ok text := by
  rw [display_of_locate hplace]
  split
  · exact ⟨_, rfl⟩
  · rename_i c hc
    unfold Cell.display
    split
    · obtain ⟨text, htext⟩ := Value.exists_display h.precise_precision (h.bounded a c hc)
      exact ⟨text, by rw [htext]; rfl⟩
    · exact ⟨_, rfl⟩

end Finishing

theorem finishing_attempts {limits : Limits} (hprecision : limits.precision.val ≤ Number.maxPrecision)
    (calls : List Call) : ((new limits).attempts calls).Finishing where
  formed := (formed_attempts limits calls).1
  bounded := bounded_attempts limits calls
  precise := (formed_attempts limits calls).2 ▸ hprecision

/-- After any edits every number in a cell is whole and short enough to write, or a finite float. Within
the greatest precision every formula has such a value over the cells, all such values and all cells can be
shown, and edits of contents by texts in cells of the sheet fail only where a number is too long to tell
of them: that of the row, where a formula is refused there, or where one cell is edited and gets a text or
loses its own, or the limit for ranges, where one is refused for it. None of these edits fails where the
numbers of all rows can be written, and so can the limit for ranges if one among the texts is over it. -/
theorem attempts_unfailing (limits : Limits) (calls : List Call) :
    let s := (new limits).attempts calls
    (∀ (a : Address) (c : Cell) (v : Value), s.cells[a]? = some c → c.value? = some v → v.Bounded) ∧
      (limits.precision.val ≤ Number.maxPrecision →
        (∀ text f, Formula.parse text = .ok f → ∃ v, f.evaluate s.scope = .ok v ∧ v.Bounded) ∧
        (∀ v : Value, v.Bounded → ∃ text, Value.display s.precision (some v) = .ok text) ∧
        (∀ a, s.limits.Holds a → s.locate a.given = .ok a) ∧
        (∀ place a, s.locate place = .ok a →
          s.value place = .ok (s.contents a) ∧ ∃ text, s.display place = .ok text) ∧
        (∀ call items, s.Enters call items →
          ((s.attempt call).answer = some .halted ↔ s.Stops items) ∧
          ((s.attempt call).answer = some .untold ↔
            call.isSingle ∧ ¬s.Stops items ∧ s.Outruns items) ∧
          (∀ fault, (s.attempt call).answer = some fault → fault = .halted ∨ fault = .untold) ∧
          (Number.isWritable s.limits.rows → s.limits.TellsRanges items →
            (s.attempt call).answer = none))) := by
  intro s
  have hbounded : s.Bounded := bounded_attempts limits calls
  refine ⟨fun a c v hc hv => hbounded a c hc v hv, fun hprecision => ?_⟩
  have hs : s.Finishing := finishing_attempts hprecision calls
  refine ⟨fun text f hf => ?_, fun v hv => ?_, fun a ha => locate_given ha, fun place a hplace => ?_,
    fun call items hcall => ?_⟩
  · have hwritten := Formula.written_of_parse hf
    obtain ⟨v, hv⟩ := Formula.exists_evaluate hbounded.scope hwritten hs.precise_precision
    exact ⟨v, hv, Formula.bounded_of_evaluate hbounded.scope hwritten hv⟩
  · exact Value.exists_display hs.precise_precision fun w hw => by cases hw; exact hv
  · refine ⟨?_, hs.exists_display hplace⟩
    unfold value
    rw [hplace]
    rfl
  · obtain ⟨hhalted, huntold, honly⟩ := hs.answer_attempt hcall
    refine ⟨hhalted, huntold, honly, fun hrows hranges => ?_⟩
    have hwritable : ∀ item ∈ items, item.1.isWritable := fun item hitem =>
      isWritable_of_holds (hcall.holds item hitem) hrows
    by_contra hfail
    obtain ⟨fault, hfault⟩ := Option.ne_none_iff_exists'.mp hfail
    rcases honly fault hfault with rfl | rfl
    · exact not_stops_of_isWritable hcall.holds hwritable hranges (hhalted.mp hfault)
    · exact not_outruns_of_isWritable hwritable (huntold.mp hfault).2.2

/-- A formula that cannot be read is refused and told of. -/
theorem attempts_unfailing_malformed :
    ((new standard).attempt (.set (⟨0, 0⟩ : Address).given (.text "=1+"))).answer = none :=
  have hplace : (new standard).locate (⟨0, 0⟩ : Address).given = .ok ⟨0, 0⟩ :=
    locate_given (by unfold Limits.Holds; decide)
  (((attempts_unfailing standard []).2 (by decide +kernel)).2.2.2.2 _ _
    (.set (s := new standard) "=1+" hplace)).2.2.2 (by decide +kernel) fun _ => by decide +kernel

end Spreadsheet.Sheet
