import Spreadsheet.Proofs.Log.Sink
import Spreadsheet.Sheet.Diagnostic

/-! How the event log tells of what happens to a sheet. Just the refusals are warnings, so the warnings
stand for diagnostics, in their order; and an entry is lost only if a number in it is too long to write. -/
namespace Spreadsheet

/-- Whether an entry of the topic tells that an edit is complete. -/
def Log.Topic.completes : Log.Topic → Bool
  | .cellSet | .cellCleared | .bulkLoad | .structureChanged => true
  | _ => false

/-- The topic and the code of the warning for a refusal. -/
def ErrorKind.warning? : ErrorKind → Option (Log.Topic × String)
  | .malformed => some (.malformedFormula, "formula_syntax")
  | .invalidRange => some (.rangeRejected, "range_too_large")
  | .cycle => some (.cycleRejected, "formula_cycle")
  | _ => none

/-- Whether an entry is the warning for a diagnostic. -/
structure Warns (entry : Log.Entry) (d : Diagnostic) : Prop where
  level : entry.level = .warning
  address : Datum.field? "address" entry.context = some (.text d.address.text)
  message : entry.message = d.rejection.message
  reason : ∃ code, entry.code = some code ∧ d.rejection.kind.warning? = some (entry.topic, code)

/-- An event with the time at which it is told of, and how many milliseconds the calculation before it
took. -/
structure Told where
  event : Event
  time : String
  duration : Number.Binary64

namespace Event

/-- The whole numbers in the entry of an event. -/
def numbers : Event → List Int
  | .rejected d => d.rejection.position.toList.map Int.ofNat
  | .recalculated _ cells errors => [cells, errors]
  | .loaded cells refused => [cells, refused]
  | .restructured e cells => [e.index, e.count, cells]
  | _ => []

def diagnostic? : Event → Option Diagnostic
  | .rejected d => some d
  | _ => none

theorem fieldsHaveTexts_details (r : Rejection) :
    Json.fieldsHaveTexts r.details ↔ ∀ n ∈ r.position.toList.map Int.ofNat, Number.isWritable n := by
  cases r with
  | malformed error =>
    have hexpected : Json.haveTexts (error.expected.map .text) := by
      simp [Json.haveTexts_iff, Json.hasText]
    cases hposition : error.position <;>
      simp [Rejection.details, Rejection.position, Json.fieldsHaveTexts, Json.hasText, hexpected,
        hposition]
  | oversized first last limit => simp [Rejection.details, Rejection.position, Json.fieldsHaveTexts]
  | circular path =>
    simp [Rejection.details, Rejection.position, Json.fieldsHaveTexts_iff, Json.haveTexts_iff, Json.hasText]

theorem fieldsHaveTexts_context (e : Event) :
    Json.fieldsHaveTexts e.context ↔ ∀ n ∈ e.numbers, Number.isWritable n := by
  cases e with
  | rejected d =>
    unfold context numbers
    dsimp only
    rw [← fieldsHaveTexts_details]
    simp [Json.fieldsHaveTexts, Json.hasText]
  | recalculated trigger cells errors =>
    cases trigger <;> simp [context, numbers, Json.fieldsHaveTexts, Json.hasText]
  | _ => simp [context, numbers, Json.fieldsHaveTexts, Json.hasText]

/-! ## Events behind refusals -/

variable {found : List Diagnostic} {before after : List Event}

theorem diagnostic?_of_completes {e : Event} (h : e.topic.completes) : e.diagnostic? = none := by
  cases e with
  | rejected d =>
    obtain ⟨a, r⟩ := d
    cases r <;> cases h
  | _ => rfl

theorem completes_rejected (d : Diagnostic) : (rejected d).topic.completes = false := by
  obtain ⟨a, r⟩ := d
  cases r <;> rfl

theorem topic_rejected (d : Diagnostic) : (rejected d).topic ≠ .recalculation := by
  obtain ⟨a, r⟩ := d
  cases r <;> simp [topic, Rejection.topic]

theorem diagnostics_of_rejected (h : ∀ e ∈ after, e.diagnostic? = none) :
    (found.map rejected ++ after).filterMap diagnostic? = found := by
  rw [List.filterMap_append, List.filterMap_eq_nil_iff.mpr h, List.append_nil, List.filterMap_map]
  exact List.filterMap_some

theorem recalculations_of_rejected (found : List Diagnostic) (after : List Event) :
    (found.map rejected ++ after).filter (fun e => e.topic = .recalculation) =
      after.filter fun e => e.topic = .recalculation := by
  rw [List.filter_append, List.append_left_eq_self, List.filter_eq_nil_iff, List.forall_mem_map]
  exact fun d _ => by simpa using topic_rejected d

theorem recalculations_of_completes (h : ∀ e ∈ after, e.topic.completes) :
    after.filter (fun e => e.topic = .recalculation) = [] := by
  rw [List.filter_eq_nil_iff]
  intro e he htopic
  have hcompletes := h e he
  rw [of_decide_eq_true htopic] at hcompletes
  cases hcompletes

theorem pairwise_completes (hbefore : ∀ e ∈ before, e.topic.completes = false)
    (hafter : ∀ e ∈ after, e.topic.completes) :
    (before ++ after).Pairwise fun x y => x.topic.completes → y.topic.completes := by
  refine List.pairwise_append.mpr ⟨?_, ?_, fun x _ y hy _ => hafter y hy⟩
  · exact List.pairwise_of_forall_mem_list fun x hx y _ hcompletes => by
      rw [hbefore x hx] at hcompletes
      cases hcompletes
  · exact List.pairwise_of_forall_mem_list fun x _ y hy _ => hafter y hy

end Event

namespace Told

def entry (t : Told) : Log.Entry := t.event.entry (some (.float t.duration))

/-- What is written to tell of the event. -/
def writing (t : Told) : String × Log.Entry := (t.time, t.entry)

theorem hasText_iff (t : Told) :
    Json.hasText (t.entry.record t.time) ↔ ∀ n ∈ t.event.numbers, Number.isWritable n := by
  have hversion : Number.isWritable t.entry.version := by
    change Number.isWritable 1
    decide +kernel
  have htiming : Json.fieldsHaveTexts (t.event.timing (some (.float t.duration))) := by
    cases t.event <;> simp [Event.timing, Json.fieldsHaveTexts, Json.hasText]
  have hcode : Json.hasText ((t.entry.code.map .text).getD .null) := by
    cases t.entry.code <;> simp [Json.hasText]
  have hcontext : Json.fieldsHaveTexts t.entry.context ↔ Json.fieldsHaveTexts t.event.context := by
    rw [Json.fieldsHaveTexts_iff] at htiming
    unfold entry Event.entry
    simp only [Json.fieldsHaveTexts_iff, List.forall_mem_append]
    exact and_iff_left htiming
  rw [← Event.fieldsHaveTexts_context, ← hcontext]
  simp [Log.Entry.record, Json.hasText, Json.fieldsHaveTexts, hcode, hversion]

theorem warns {t : Told} {d : Diagnostic} (h : t.event.diagnostic? = some d) : Warns t.entry d := by
  obtain ⟨event, time, duration⟩ := t
  cases event with
  | rejected d' =>
    cases h
    obtain ⟨a, r⟩ := d
    refine ⟨rfl, rfl, rfl, ⟨_, rfl, ?_⟩⟩
    cases r <;> rfl
  | _ => cases h

theorem level_eq_warning_iff (t : Told) : t.entry.level = .warning ↔ t.event.diagnostic?.isSome := by
  obtain ⟨event, time, duration⟩ := t
  cases event <;> simp [entry, Event.entry, Event.level, Event.diagnostic?]

/-- The warnings stand for the diagnostics of the refusals, in their order. -/
theorem forall₂_warns (told : List Told) :
    List.Forall₂ Warns ((told.map entry).filter fun e => e.level = .warning)
      ((told.map event).filterMap Event.diagnostic?) := by
  induction told with
  | nil => exact .nil
  | cons t told ih =>
    have hlevel := t.level_eq_warning_iff
    rw [List.map_cons, List.map_cons, List.filterMap_cons]
    cases hd : t.event.diagnostic? with
    | none =>
      rw [List.filter_cons_of_neg (by simpa [hd] using hlevel)]
      exact ih
    | some d =>
      rw [List.filter_cons_of_pos (by simpa [hd] using hlevel)]
      exact .cons (warns hd) ih

/-- Entries of a topic tell of events of the topic. -/
theorem filter_topic (told : List Told) (topic : Log.Topic) :
    (told.map entry).filter (fun e => e.topic = topic) =
      (told.filter fun t => t.event.topic = topic).map entry := by
  rw [List.filter_map]
  rfl

theorem map_event_filter (told : List Told) (topic : Log.Topic) :
    (told.filter fun t => t.event.topic = topic).map event =
      (told.map event).filter fun e => e.topic = topic := by
  rw [List.filter_map]
  rfl

theorem pairwise_completes_iff {told : List Told} :
    ((told.map entry).Pairwise fun before after => before.topic.completes → after.topic.completes) ↔
      (told.map event).Pairwise fun before after =>
        before.topic.completes → after.topic.completes := by
  rw [List.pairwise_map, List.pairwise_map]
  rfl

end Told
end Spreadsheet
