import Spreadsheet.Proofs.Log.Journal

/-! The event log reads back what was written to it. A record that was torn costs the next one as well, if
another one is written behind it. -/
namespace Spreadsheet.Log.Sink

/-- Writes a record, or only the first characters of its line. -/
def extend (k : Sink) : Append → Except Fault Sink
  | .whole r => k.write r.time r.entry
  | .torn r length _ => k.appendText (String.ofList (r.chars.take length))

/-- The file, which is empty as long as it is not there. -/
def file (k : Sink) : Journal := k.journal.getD .empty

theorem write_of_hasText {k : Sink} (hpresent : k.present) {time : String} {e : Entry}
    (h : Json.hasText (e.record time)) :
    k.write time e = .ok { k with journal := some (k.file.append time e) } := by
  simp [write, file, h, hpresent]

theorem hasText_of_write {k k' : Sink} {time : String} {e : Entry} (h : k.write time e = .ok k') :
    Json.hasText (e.record time) := by
  cases htext : Json.hasText (e.record time) with
  | true => rfl
  | false => simp [write, htext] at h

theorem extend_of_present {k : Sink} (hpresent : k.present) (append : Append) :
    k.extend append = .ok { k with journal := some (k.file.extend append) } := by
  cases append with
  | whole r => exact write_of_hasText hpresent r.writable
  | torn r length _ => simp [extend, appendText, hpresent, Journal.extend, file]

/-- In a directory that is there, every write reaches the file. -/
theorem exists_extended {k : Sink} (hpresent : k.present) (appends : List Append) : ∃ k',
    appends.foldlM extend k = .ok k' ∧ k'.file = appends.foldl Journal.extend k.file := by
  induction appends generalizing k with
  | nil => exact ⟨k, rfl, rfl⟩
  | cons append appends ih =>
    rw [List.foldlM_cons, extend_of_present hpresent]
    exact ih hpresent

/-- What is read after any writes, some of which were broken off: the records that are alone on their lines,
the newest one first. Where parts of records were left, these are all the records whose writes were completed
if and only if no such write came behind a part. -/
theorem read_extended (appends : List Append) :
    (∃ k, appends.foldlM extend new = .ok k ∧
      ∀ (level topic : Option String) (n : Nat), k.read ⟨level, topic, some n⟩ =
        .ok ((((survivors .clean appends).reverse.filter fun r => r.entry.fits level topic).take n).map
          Record.datum)) ∧
    ((∀ append ∈ appends, append.IsPartial) →
      (survivors .clean appends = appends.filterMap Append.completed? ↔
        appends.Pairwise fun before after => before.isTorn → after.isTorn)) := by
  refine ⟨?_, survivors_eq_completed_iff⟩
  obtain ⟨k, hk, hfile⟩ := @exists_extended new rfl appends
  refine ⟨k, hk, fun level topic n => ?_⟩
  change k.file.read _ = _
  rw [hfile]
  exact Journal.read_foldl_extend appends level topic n

/-- A record without context. -/
def note (message : String) : Record where
  time := "T"
  entry := { level := .info, topic := .cellSet, message, context := [], code := none }
  distinct := .mapping List.nodup_nil (List.forall_mem_nil _)
  writable := by
    have hversion : Number.isWritable 1 := by decide +kernel
    simpa [Entry.record, Json.hasText, Json.fieldsHaveTexts] using hversion

theorem lt_length_chars_note : 12 < (note "one").chars.length := by
  rw [Record.chars_eq, Record.datum, Entry.sortedRecord_eq]
  simp only [Json.chars, Json.fieldChars, note]
  decide +kernel

/-- Three records, and the first characters of a further one in front of the second. -/
def interrupted : List Append :=
  [.whole (note "zero"), .torn (note "one") 12 (by decide), .whole (note "one"), .whole (note "two")]

/-- The record behind a torn one is lost as well. -/
theorem read_extended_torn :
    (∃ k, interrupted.foldlM extend new = .ok k ∧
      k.read {} = .ok [(note "two").datum, (note "zero").datum]) ∧
    survivors .clean interrupted ≠ interrupted.filterMap Append.completed? := by
  obtain ⟨⟨k, hk, hread⟩, hcompleted⟩ := read_extended interrupted
  refine ⟨⟨k, hk, (hread none none 200).trans ?_⟩, ?_⟩
  · have hsurvivors : survivors .clean interrupted = [note "zero", note "two"] := by
      simp only [interrupted, survivors, Standing.after]
      split <;> rfl
    rw [hsurvivors]
    rfl
  · have hpartial : ∀ append ∈ interrupted, append.IsPartial := by
      simp only [interrupted, List.forall_mem_cons]
      exact ⟨trivial, lt_length_chars_note, trivial, trivial, List.forall_mem_nil _⟩
    rw [Ne, hcompleted hpartial]
    decide

/-! ## Completed writes -/

/-- Writes entries, each at its time. -/
def writeAll (k : Sink) (writes : List (String × Entry)) : Except Fault Sink :=
  writes.foldlM (fun k w => k.write w.1 w.2) k

theorem hasText_of_writeAll {k k' : Sink} {writes : List (String × Entry)}
    (h : k.writeAll writes = .ok k') : ∀ w ∈ writes, Json.hasText (w.2.record w.1) := by
  induction writes generalizing k with
  | nil => exact List.forall_mem_nil _
  | cons w writes ih =>
    obtain ⟨next, hnext, hrest⟩ := bind_eq_ok.mp h
    exact List.forall_mem_cons.mpr ⟨hasText_of_write hnext, ih hrest⟩

/-- Reports entries, each at its time. -/
def emitAll (k : Sink) (writes : List (String × Entry)) : Sink :=
  writes.foldl (fun k w => k.emit w.1 w.2) k

/-- Of entries that are reported those are lost that cannot be written, and no others. -/
theorem writeAll_filter_hasText {k : Sink} (hpresent : k.present) (hlistening : k.listening)
    (writes : List (String × Entry)) :
    k.writeAll (writes.filter fun w => Json.hasText (w.2.record w.1)) = .ok (k.emitAll writes) := by
  induction writes generalizing k with
  | nil => rfl
  | cons w writes ih =>
    have hemit : k.emitAll (w :: writes) = ((k.write w.1 w.2).toOption.getD k).emitAll writes := by
      simp [emitAll, emit, hlistening]
    rw [hemit]
    cases htext : Json.hasText (w.2.record w.1) with
    | true =>
      have hwrite := write_of_hasText hpresent htext
      rw [List.filter_cons_of_pos (by simpa using htext), writeAll, List.foldlM_cons, hwrite]
      exact ih hpresent hlistening
    | false =>
      have hwrite : (k.write w.1 w.2).toOption = none := by simp [write, htext, Except.toOption]
      rw [List.filter_cons_of_neg (by simp [htext]), hwrite]
      exact ih hpresent hlistening

theorem exists_records {writes : List (String × Entry)}
    (hdistinct : ∀ w ∈ writes, (Datum.mapping w.2.context).Distinct)
    (htext : ∀ w ∈ writes, Json.hasText (w.2.record w.1)) :
    ∃ records : List Record, records.map (fun r => (r.time, r.entry)) = writes := by
  induction writes with
  | nil => exact ⟨[], rfl⟩
  | cons w writes ih =>
    obtain ⟨hw, hwrites⟩ := List.forall_mem_cons.mp hdistinct
    obtain ⟨hw', hwrites'⟩ := List.forall_mem_cons.mp htext
    obtain ⟨records, rfl⟩ := ih hwrites hwrites'
    exact ⟨⟨w.1, w.2, hw, hw'⟩ :: records, rfl⟩

theorem writeAll_records (k : Sink) (records : List Record) :
    k.writeAll (records.map fun r => (r.time, r.entry)) = (records.map .whole).foldlM extend k := by
  rw [writeAll, List.foldlM_map, List.foldlM_map]
  rfl

theorem file_of_writeAll {k : Sink} {records : List Record}
    (h : new.writeAll (records.map fun r => (r.time, r.entry)) = .ok k) :
    k.file = (records.map .whole).foldl Journal.extend .empty := by
  obtain ⟨extended, hextended, hfile⟩ := @exists_extended new rfl (records.map .whole)
  rw [writeAll_records, hextended] at h
  cases h
  exact hfile

/-- The log reads back what was written to it, the newest record first, and in the order of its keys at most a
record differs from what was written. Each record is one line of the file. Only what holds a number of too
many digits cannot be written. -/
theorem read_written (writes : List (String × Entry))
    (hdistinct : ∀ w ∈ writes, (Datum.mapping w.2.context).Distinct) :
    ((∃ k, new.writeAll writes = .ok k) ↔ ∀ w ∈ writes, Json.hasText (w.2.record w.1)) ∧
    ∀ k, new.writeAll writes = .ok k →
      (∀ (level topic : Option String) (n : Nat), k.read ⟨level, topic, some n⟩ =
        .ok (((writes.reverse.filter fun w => w.2.fits level topic).take n).map
          fun w => w.2.sortedRecord w.1)) ∧
      (∀ w ∈ writes, (w.2.record w.1).Same (w.2.sortedRecord w.1)) ∧
      Text.pieces Text.isBreak k.file.text.toList =
        (writes.map fun w => (w.2.line w.1).toList) ++ [[]] := by
  have hwritten : (∀ w ∈ writes, Json.hasText (w.2.record w.1)) → ∃ records : List Record,
      records.map (fun r => (r.time, r.entry)) = writes := exists_records hdistinct
  refine ⟨⟨fun ⟨k, hk⟩ => hasText_of_writeAll hk, fun htext => ?_⟩, fun k hk => ⟨?_, ?_, ?_⟩⟩
  · obtain ⟨records, rfl⟩ := hwritten htext
    obtain ⟨k, hk, -⟩ := @exists_extended new rfl (records.map .whole)
    exact ⟨k, (writeAll_records new records).trans hk⟩
  · intro level topic n
    obtain ⟨records, rfl⟩ := hwritten (hasText_of_writeAll hk)
    have hsurvivors : survivors .clean (records.map .whole) = records := by
      simpa [survivors, Standing.read] using survivors_append records []
    change k.file.read _ = _
    rw [file_of_writeAll hk, Journal.read_foldl_extend, hsurvivors, ← List.map_reverse,
      List.filter_map, ← List.map_take, List.map_map]
    rfl
  · exact fun w hw => Json.same_sorted (Entry.distinct_record (hdistinct w hw) w.1)
  · obtain ⟨records, rfl⟩ := hwritten (hasText_of_writeAll hk)
    rw [file_of_writeAll hk, Journal.toList_foldl_extend, List.map_map]
    exact pieces_flatMap records

/-- An entry with characters that would end its line, and with keys out of order. -/
def breaking : Entry where
  level := .warning
  topic := .cycleRejected
  message := "\"A1\"\r\n\u0085\u2028\u2029\x1c"
  context := [("path", .list [.text "A1\n", .null]), ("cells", .int 2)]
  code := some "formula_cycle"

theorem read_written_breaking : (Datum.mapping breaking.context).Distinct ∧ ∃ k,
    new.writeAll [("T", (note "one").entry), ("T", breaking), ("T", (note "two").entry)] = .ok k ∧
    k.read ⟨some "warning", none, some 1⟩ = .ok [breaking.sortedRecord "T"] := by
  have hcontext : (Datum.mapping breaking.context).Distinct := by
    refine .mapping (by decide) ?_
    simp only [breaking, List.forall_mem_cons]
    exact ⟨.list (by simp only [List.forall_mem_cons]; exact ⟨.text _, .null, List.forall_mem_nil _⟩),
      .int _, List.forall_mem_nil _⟩
  have htext : Json.hasText (breaking.record "T") := by
    have hsmall : Number.isWritable 1 ∧ Number.isWritable 2 := by decide +kernel
    simpa [Entry.record, breaking, Json.hasText, Json.haveTexts, Json.fieldsHaveTexts] using hsmall.symm
  obtain ⟨hwritable, hread⟩ :=
    read_written [("T", (note "one").entry), ("T", breaking), ("T", (note "two").entry)] (by
      simp only [List.forall_mem_cons]
      exact ⟨(note "one").distinct, hcontext, (note "two").distinct, List.forall_mem_nil _⟩)
  obtain ⟨k, hk⟩ := hwritable.mpr (by
    simp only [List.forall_mem_cons]
    exact ⟨(note "one").writable, htext, (note "two").writable, List.forall_mem_nil _⟩)
  refine ⟨hcontext, k, hk, ((hread k hk).1 (some "warning") none 1).trans ?_⟩
  simp [Entry.fits, note, breaking, Level.name]

end Spreadsheet.Log.Sink
