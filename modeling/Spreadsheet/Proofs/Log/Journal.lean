import Spreadsheet.Log.Sink
import Spreadsheet.Proofs.Except
import Spreadsheet.Proofs.Log.Record
import Spreadsheet.Proofs.Text.Lines

/-! What is read from a log. A write that is broken off leaves the first characters of its line, and the
next write goes on behind them. -/
namespace Spreadsheet.Log

open Json (Foreign)

/-- A write to the log that was completed, or one that was broken off before the line feed. -/
inductive Append where
  | whole (r : Record)
  | torn (r : Record) (length : Nat) (pos : 0 < length)

namespace Append

def isTorn : Append → Bool
  | whole _ => false
  | torn .. => true

/-- The record, if its write was completed. -/
def completed? : Append → Option Record
  | whole r => some r
  | torn .. => none

/-- Whether a write that was broken off left a part of the record only. -/
def IsPartial : Append → Prop
  | whole _ => True
  | torn r length _ => length < r.chars.length

/-- What a write leaves in the file. -/
def chars : Append → List Char
  | whole r => r.chars ++ ['\n']
  | torn r length _ => r.chars.take length

end Append

/-- What stands on the last line of the file: nothing, a record and nothing else, or characters from which
nothing is read. -/
inductive Standing where
  | clean
  | whole (r : Record)
  | spoiled

namespace Standing

/-- What stands there after the first characters of a record. -/
def after (r : Record) (length : Nat) : Standing → Standing
  | clean => if r.chars.length ≤ length then whole r else spoiled
  | _ => spoiled

theorem clean_ne_whole (r : Record) : clean ≠ whole r := by nofun

theorem after_ne_clean (s : Standing) (r : Record) (length : Nat) : s.after r length ≠ clean := by
  unfold after
  repeat' split
  all_goals nofun

/-- What is read from it. -/
def read : Standing → List Record
  | whole r => [r]
  | _ => []

end Standing

/-- The records that can be read from the file, the oldest one first, after writes that began on a line where
something stood. A record is lost if it is not alone on its line. -/
def survivors : Standing → List Append → List Record
  | s, [] => s.read
  | .clean, .whole r :: appends => r :: survivors .clean appends
  | _, .whole _ :: appends => survivors .clean appends
  | s, .torn r length _ :: appends => survivors (s.after r length) appends

theorem survivors_whole (s : Standing) (r : Record) (appends : List Append) :
    survivors s (.whole r :: appends) = (s.after r r.chars.length).read ++ survivors .clean appends := by
  cases s <;> simp [survivors, Standing.after, Standing.read]

/-- Writes that were broken off at the end of the file cost none of the records before them. -/
theorem survivors_append (records : List Record) (appends : List Append) :
    survivors .clean (records.map .whole ++ appends) = records ++ survivors .clean appends := by
  induction records with
  | nil => rfl
  | cons r records ih => simp [survivors, ih]

theorem survivors_of_ne_clean {s : Standing} (hs : s ≠ .clean) {tears : List Append}
    (htears : ∀ append ∈ tears, append.isTorn) (r : Record) (appends : List Append) :
    survivors s (tears ++ .whole r :: appends) = survivors .clean appends := by
  induction tears generalizing s with
  | nil =>
    cases s with
    | clean => contradiction
    | whole other => rfl
    | spoiled => rfl
  | cons tear tears ih =>
    obtain ⟨htear, hrest⟩ := List.forall_mem_cons.mp htears
    cases tear with
    | whole other => contradiction
    | torn other length _ => exact ih (s.after_ne_clean other length) hrest

/-- Writes that were broken off cost the one record that was written behind them, and no further one. -/
theorem survivors_torn {tears : List Append} (hne : tears ≠ []) (htears : ∀ append ∈ tears, append.isTorn)
    (r : Record) (appends : List Append) :
    survivors .clean (tears ++ .whole r :: appends) = survivors .clean appends := by
  obtain ⟨tear, tears, rfl⟩ := List.exists_cons_of_ne_nil hne
  obtain ⟨htear, hrest⟩ := List.forall_mem_cons.mp htears
  cases tear with
  | whole other => contradiction
  | torn other length _ =>
    exact survivors_of_ne_clean (Standing.clean.after_ne_clean other length) hrest r appends

section Partial

variable {appends : List Append}

theorem after_of_isPartial {r : Record} {length : Nat} (h : length < r.chars.length) {s : Standing}
    (hs : ∀ other, s ≠ .whole other) : s.after r length = .spoiled := by
  cases s with
  | clean => exact if_neg (Nat.not_le.mpr h)
  | whole other => exact absurd rfl (hs other)
  | spoiled => rfl

/-- Parts of records are never read as records. -/
theorem survivors_sublist (hpartial : ∀ append ∈ appends, append.IsPartial) {s : Standing}
    (hs : ∀ other, s ≠ .whole other) :
    (survivors s appends).Sublist (appends.filterMap Append.completed?) := by
  induction appends generalizing s with
  | nil =>
    cases s with
    | whole other => exact absurd rfl (hs other)
    | _ => exact List.nil_sublist _
  | cons append appends ih =>
    obtain ⟨hfirst, hrest⟩ := List.forall_mem_cons.mp hpartial
    have hclean := ih hrest Standing.clean_ne_whole
    cases append with
    | whole r =>
      cases s with
      | clean => exact hclean.cons_cons r
      | whole other => exact absurd rfl (hs other)
      | spoiled => exact hclean.cons r
    | torn r length pos =>
      rw [survivors, after_of_isPartial hfirst hs]
      exact ih hrest nofun

theorem survivors_spoiled_eq_iff (hpartial : ∀ append ∈ appends, append.IsPartial) :
    survivors .spoiled appends = appends.filterMap Append.completed? ↔
      ∀ append ∈ appends, append.isTorn := by
  induction appends with
  | nil => simp [survivors, Standing.read]
  | cons append appends ih =>
    obtain ⟨-, hrest⟩ := List.forall_mem_cons.mp hpartial
    cases append with
    | whole r =>
      -- the record is lost, and no other one stands in for it
      have hlength := (survivors_sublist hrest Standing.clean_ne_whole).length_le
      refine iff_of_false (fun heq => ?_) (by simp [Append.isTorn])
      have hlost := congrArg List.length heq
      simp only [survivors, Append.completed?, List.filterMap_cons, List.length_cons] at hlost
      omega
    | torn r length pos =>
      rw [List.forall_mem_cons]
      exact (ih hrest).trans (and_iff_right rfl).symm

/-- Where writes left only parts of records, the completed records are read, and no others, if none of them
was written behind such a part. Otherwise some are lost. -/
theorem survivors_eq_completed_iff (hpartial : ∀ append ∈ appends, append.IsPartial) :
    survivors .clean appends = appends.filterMap Append.completed? ↔
      appends.Pairwise fun before after => before.isTorn → after.isTorn := by
  induction appends with
  | nil => simp [survivors, Standing.read]
  | cons append appends ih =>
    obtain ⟨hfirst, hrest⟩ := List.forall_mem_cons.mp hpartial
    cases append with
    | whole r => simp [survivors, Append.completed?, Append.isTorn, ih hrest]
    | torn r length pos =>
      rw [survivors, after_of_isPartial hfirst Standing.clean_ne_whole, List.pairwise_cons]
      refine (survivors_spoiled_eq_iff hrest).trans ⟨fun h => ⟨fun append hmem _ => h append hmem, ?_⟩,
        fun h append hmem => h.1 append hmem rfl⟩
      exact List.pairwise_of_forall_mem_list fun _ _ after hafter _ => h after hafter

end Partial

/-! ## A line -/

/-- What writes that were broken off have left. -/
def Leftovers (parts : List (List Char)) : Prop :=
  ∀ part ∈ parts, part ≠ [] ∧ ∃ r : Record, part <+: r.chars

theorem Leftovers.foreign {parts : List (List Char)} (h : Leftovers parts) : Foreign parts.flatten := by
  induction parts with
  | nil => exact .nil
  | cons part parts ih =>
    obtain ⟨⟨-, r, hpart⟩, hparts⟩ := List.forall_mem_cons.mp h
    exact r.foreign_append hpart (ih hparts)

theorem Leftovers.isGraphic {parts : List (List Char)} (h : Leftovers parts) :
    ∀ c ∈ parts.flatten, Json.isGraphic c := by
  simp only [List.mem_flatten]
  rintro c ⟨part, hpart, hc⟩
  obtain ⟨-, r, hleft⟩ := h part hpart
  exact r.isGraphic_chars c (hleft.subset hc)

theorem Leftovers.flatten_ne_nil {parts : List (List Char)} (h : Leftovers parts) (hne : parts ≠ []) :
    parts.flatten ≠ [] := by
  obtain ⟨part, parts, rfl⟩ := List.exists_cons_of_ne_nil hne
  simp [(h part List.mem_cons_self).1]

/-- The parts of the last line, and what they amount to. -/
inductive Stands : Standing → List (List Char) → Prop where
  | clean : Stands .clean []
  | whole (r : Record) : Stands (.whole r) [r.chars]
  | spoiled {r : Record} {part : List Char} {parts : List (List Char)} : part <+: r.chars → part ≠ [] →
      Leftovers parts → (part = r.chars → parts ≠ []) → Stands .spoiled (part :: parts)

namespace Stands

variable {s : Standing} {parts : List (List Char)}

theorem leftovers (h : Stands s parts) : Leftovers parts := by
  cases h with
  | clean => exact List.forall_mem_nil _
  | whole r => exact List.forall_mem_singleton.mpr ⟨r.chars_ne_nil, r, List.prefix_refl _⟩
  | spoiled hpart hne hparts => exact List.forall_mem_cons.mpr ⟨⟨hne, _, hpart⟩, hparts⟩

theorem after (h : Stands s parts) (r : Record) {length : Nat} (hlength : 0 < length) :
    Stands (s.after r length) (parts ++ [r.chars.take length]) := by
  have hne : r.chars.take length ≠ [] := by
    simpa [r.chars_ne_nil] using Nat.ne_of_gt hlength
  have hlast : Leftovers [r.chars.take length] :=
    List.forall_mem_singleton.mpr ⟨hne, r, List.take_prefix _ _⟩
  cases h with
  | clean =>
    rw [Standing.after, List.nil_append]
    by_cases hfull : r.chars.length ≤ length
    · rw [if_pos hfull, List.take_of_length_le hfull]
      exact whole r
    · rw [if_neg hfull]
      refine spoiled (List.take_prefix _ _) hne (List.forall_mem_nil _) fun heq => ?_
      have hle := congrArg List.length heq
      rw [List.length_take] at hle
      omega
  | whole other =>
    exact spoiled (List.prefix_refl _) other.chars_ne_nil hlast fun _ => List.cons_ne_nil _ _
  | spoiled hpart hpart' hparts _ =>
    exact spoiled hpart hpart' (List.forall_mem_append.mpr ⟨hparts, hlast⟩) fun _ => by simp

/-- A line is read as the record that stands on it, if one does. -/
theorem readLine (h : Stands s parts) (hne : parts ≠ []) (before : List Datum) :
    Journal.readLine before parts.flatten = .ok (s.read.map Record.datum ++ before) := by
  cases h with
  | clean => contradiction
  | whole r =>
    rw [List.flatten_singleton, Journal.readLine, r.parse_chars]
    rfl
  | spoiled hpart hpart' hparts hmore =>
    rw [List.flatten_cons, Journal.readLine,
      Record.parse_isPrefix hpart hpart' hparts.foreign fun heq => hparts.flatten_ne_nil (hmore heq)]
    rfl

theorem not_isBreak (h : Stands s parts) : ∀ c ∈ parts.flatten, Text.isBreak c = false :=
  fun c hc => Json.not_isBreak_of_isGraphic (h.leftovers.isGraphic c hc)

theorem exists_not_isBlank (h : Stands s parts) (hne : parts ≠ []) :
    ∃ c ∈ parts.flatten, Text.isBlank c = false := by
  obtain hnil | ⟨rest, hrest⟩ := h.leftovers.foreign.cases
  · exact absurd hnil (h.leftovers.flatten_ne_nil hne)
  · exact ⟨'\x7b', by simp [hrest], rfl⟩

/-- Reads the last line, to which parts have come, and what was appended since. -/
theorem readLines (h : Stands s parts) (appends : List Append) (before : List Datum) :
    (Text.lines (parts.flatten ++ appends.flatMap Append.chars)).foldlM Journal.readLine before =
      .ok ((survivors s appends).reverse.map Record.datum ++ before) := by
  induction appends generalizing s parts before with
  | nil =>
    rw [List.flatMap_nil, List.append_nil]
    cases parts with
    | nil =>
      cases h
      rfl
    | cons part parts =>
      have hne := List.cons_ne_nil part parts
      rw [Text.lines_eq_singleton h.not_isBreak (h.exists_not_isBlank hne), List.foldlM_cons,
        h.readLine hne]
      cases s <;> rfl
  | cons append appends ih =>
    cases append with
    | whole r =>
      have hline := h.after r (List.length_pos_iff.mpr r.chars_ne_nil)
      rw [List.take_length] at hline
      have hne : parts ++ [r.chars] ≠ [] := by simp
      have htext : parts.flatten ++ (Append.whole r :: appends).flatMap Append.chars =
          (parts ++ [r.chars]).flatten ++ '\n' :: appends.flatMap Append.chars := by
        simp [Append.chars]
      rw [htext, Text.lines_append hline.not_isBreak (hline.exists_not_isBlank hne), List.foldlM_cons,
        hline.readLine hne]
      have hrest := ih clean ((s.after r r.chars.length).read.map Record.datum ++ before)
      rw [List.flatten_nil, List.nil_append] at hrest
      refine hrest.trans ?_
      rw [survivors_whole]
      generalize s.after r r.chars.length = next
      cases next <;> simp [Standing.read]
    | torn r length hlength =>
      have hrest := ih (h.after r hlength) before
      rw [survivors, ← hrest]
      simp [Append.chars]

end Stands

/-- Every record is a line of its own. -/
theorem pieces_flatMap (records : List Record) :
    Text.pieces Text.isBreak ((records.map .whole).flatMap Append.chars) =
      records.map Record.chars ++ [[]] := by
  rw [Text.pieces_eq_splitOnP]
  induction records with
  | nil => rfl
  | cons r records ih =>
    have hbreaks : ∀ c ∈ r.chars, Text.isBreak c = false :=
      fun c hc => Json.not_isBreak_of_isGraphic (r.isGraphic_chars c hc)
    have htext : ((r :: records).map Append.whole).flatMap Append.chars =
        r.chars ++ '\n' :: (records.map .whole).flatMap Append.chars := by
      simp [Append.chars]
    rw [htext, List.splitOnP_append_cons_of_forall_mem hbreaks '\n' rfl, ih]
    rfl

/-! ## The file -/

namespace Journal

/-- The file after a write. -/
def extend (j : Journal) : Append → Journal
  | .whole r => j.append r.time r.entry
  | .torn r length _ => j.appendText (String.ofList (r.chars.take length))

theorem toList_extend (j : Journal) (append : Append) :
    (j.extend append).text.toList = j.text.toList ++ append.chars := by
  cases append <;> simp [extend, Journal.append, appendText, Append.chars, Record.chars]

theorem toList_foldl_extend (j : Journal) (appends : List Append) :
    (appends.foldl extend j).text.toList = j.text.toList ++ appends.flatMap Append.chars := by
  induction appends generalizing j with
  | nil => simp
  | cons append appends ih => simp [ih, toList_extend]

theorem records_foldl_extend (appends : List Append) : (appends.foldl extend empty).records =
    .ok ((survivors .clean appends).reverse.map Record.datum) := by
  have hread := Stands.clean.readLines appends []
  rw [List.flatten_nil, List.nil_append, List.append_nil] at hread
  rw [records, toList_foldl_extend]
  exact hread

theorem read_of_records {j : Journal} {records : List Record}
    (h : j.records = .ok (records.map Record.datum)) (level topic : Option String) (n : Nat) :
    j.read ⟨level, topic, some n⟩ =
      .ok (((records.filter fun r => r.entry.fits level topic).take n).map Record.datum) := by
  have hfilter : (records.map Record.datum).filterM (Query.accepts ⟨level, topic, some n⟩) =
      .ok ((records.filter fun r => r.entry.fits level topic).map Record.datum) :=
    filterM_map_eq_ok fun r _ => Entry.accepts_sortedRecord ⟨level, topic, some n⟩ r.time r.entry
  rw [read, h]
  refine (congrArg (· >>= fun fitting => pure (takeInt (some (n : Int)) fitting)) hfilter).trans ?_
  simp [bind, Except.bind, pure, Except.pure, takeInt]

/-- What is read from a file of whole records and of torn ones: the records that are alone on their lines, the
newest one first. -/
theorem read_foldl_extend (appends : List Append) (level topic : Option String) (n : Nat) :
    (appends.foldl extend empty).read ⟨level, topic, some n⟩ =
      .ok ((((survivors .clean appends).reverse.filter fun r => r.entry.fits level topic).take n).map
        Record.datum) := by
  apply read_of_records
  exact records_foldl_extend appends

end Journal

end Spreadsheet.Log
