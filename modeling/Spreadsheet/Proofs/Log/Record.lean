import Spreadsheet.Log.Journal
import Spreadsheet.Proofs.Data.Json.Line
import Spreadsheet.Proofs.Data.Json.Torn

/-! Records of the event log: what an entry that can be written leaves on its line. -/
namespace Spreadsheet.Log

open Json (Plain lined Foreign)

namespace Entry

/-- The entry as data, with its keys in order. -/
def sortedRecord (time : String) (e : Entry) : Datum := Json.sorted (e.record time)

/-- Only in the context of an entry the keys may not be in order from the start. -/
theorem sortedRecord_eq (time : String) (e : Entry) : e.sortedRecord time =
    .mapping [("context", Json.sorted (.mapping e.context)), ("error_code", (e.code.map .text).getD .null),
      ("event_type", .text e.topic.name), ("level", .text e.level.name), ("message", .text e.message),
      ("schema_version", .int e.version), ("ts", .text time)] := by
  have hcode : Json.sorted ((e.code.map Datum.text).getD .null) = (e.code.map Datum.text).getD .null := by
    cases e.code <;> rfl
  rw [sortedRecord, record, Json.sorted]
  simp only [Json.sortedFields, hcode]
  rw [List.mergeSort_of_pairwise]
  · rfl
  · simp

theorem distinct_record {e : Entry} (h : (Datum.mapping e.context).Distinct) (time : String) :
    (e.record time).Distinct := by
  have hkeys : ["context", "error_code", "event_type", "level", "message", "schema_version",
    "ts"].Nodup := by decide
  refine .mapping hkeys ?_
  simp only [List.forall_mem_cons]
  refine ⟨h, ?_, .text _, .text _, .text _, .int _, .text _, List.forall_mem_nil _⟩
  cases e.code with
  | none => exact .null
  | some code => exact .text code

/-- Whether an entry has a level and a topic; any will do if none is given. -/
def fits (level topic : Option String) (e : Entry) : Bool :=
  level.all (e.level.name == ·) && topic.all (e.topic.name == ·)

theorem accepts_sortedRecord (q : Journal.Query) (time : String) (e : Entry) :
    q.accepts (e.sortedRecord time) = .ok (e.fits q.level q.topic) := by
  rw [sortedRecord_eq, Journal.Query.accepts, fits]
  congr 2
  · cases q.level <;> simp [Journal.fieldIs, Datum.field?, List.lookup_cons]
  · cases q.topic <;> simp [Journal.fieldIs, Datum.field?, List.lookup_cons]

end Entry

/-- An entry that can be written at a time: no mapping in it has a key twice, and its whole numbers are short
enough. -/
structure Record where
  time : String
  entry : Entry
  distinct : (Datum.mapping entry.context).Distinct
  writable : Json.hasText (entry.record time)

namespace Record

def datum (r : Record) : Datum := r.entry.sortedRecord r.time

/-- The characters of its line. -/
def chars (r : Record) : List Char := (r.entry.line r.time).toList

theorem chars_eq (r : Record) : r.chars = Json.chars lined 0 r.datum := String.toList_ofList

theorem plain (r : Record) : Plain r.datum :=
  Json.plain_sorted (Json.plain_of_hasText (Entry.distinct_record r.distinct r.time) r.writable)

theorem opens (r : Record) : Json.Opens r.chars := by
  rw [chars_eq, datum, Entry.sortedRecord_eq]
  exact ⟨_, _, rfl, by decide, by decide⟩

theorem chars_ne_nil (r : Record) : r.chars ≠ [] := by
  obtain ⟨c, rest, h, -⟩ := r.opens
  simp [h]

theorem isGraphic_chars (r : Record) : ∀ c ∈ r.chars, Json.isGraphic c := by
  rw [chars_eq]
  exact Json.isGraphic_chars r.plain 0

theorem exists_mapping (r : Record) : ∃ fields, r.datum = .mapping fields :=
  ⟨_, Entry.sortedRecord_eq r.time r.entry⟩

variable {r : Record} {part cs : List Char}

theorem parse_chars (r : Record) : Json.parse (String.ofList r.chars) = .ok r.datum := by
  rw [chars_eq]
  exact Json.parse_line r.plain

/-- From what is left of a record nothing is read, nor from one that is not alone on its line. -/
theorem parse_isPrefix (hpart : part <+: r.chars) (hne : part ≠ []) (hcs : Foreign cs)
    (hmore : part = r.chars → cs ≠ []) : Json.parse (String.ofList (part ++ cs)) = .error .malformed := by
  obtain ⟨fields, hfields⟩ := r.exists_mapping
  have hplain := r.plain
  rw [chars_eq] at hpart hmore
  rw [hfields] at hplain hpart hmore
  exact Json.parse_isPrefix hplain hpart hne hcs hmore

theorem foreign_append (hpart : part <+: r.chars) (hcs : Foreign cs) : Foreign (part ++ cs) := by
  obtain ⟨fields, hfields⟩ := r.exists_mapping
  have hplain := r.plain
  have hopens := r.opens
  rw [chars_eq] at hpart hopens
  rw [hfields] at hplain hpart hopens
  exact .append hplain hopens hpart hcs

end Record
end Spreadsheet.Log
