import Spreadsheet.Proofs.Data.Json.Cut

/-! A datum on a line of its own. With its keys in order it is still the same datum, and its text has no
character but those of printable ASCII, so that nothing in it ends a line. -/
namespace Spreadsheet

namespace Datum

/-- No mapping in a datum has a key twice. -/
inductive Distinct : Datum → Prop where
  | null : Distinct .null
  | bool (value : Bool) : Distinct (.bool value)
  | int (value : Int) : Distinct (.int value)
  | float (value : Number.Binary64) : Distinct (.float value)
  | text (value : String) : Distinct (.text value)
  | list {items : List Datum} : (∀ item ∈ items, Distinct item) → Distinct (.list items)
  | mapping {fields : Fields} : (fields.map Prod.fst).Nodup →
      (∀ field ∈ fields, Distinct field.2) → Distinct (.mapping fields)

/-- Two data that differ in the order of fields at most. -/
inductive Same : Datum → Datum → Prop where
  | refl (d : Datum) : Same d d
  | list {items others : List Datum} : items.length = others.length →
      (∀ (i : Nat) (item other : Datum), items[i]? = some item → others[i]? = some other →
        Same item other) →
      Same (.list items) (.list others)
  | mapping {fields others : Fields} : (fields.map Prod.fst).Perm (others.map Prod.fst) →
      (∀ key value other, (key, value) ∈ fields → (key, other) ∈ others → Same value other) →
      Same (.mapping fields) (.mapping others)

end Datum

namespace Json

open Datum (Distinct Same)
open Text (isAsciiDigit)

/-! ## Sorted keys -/

theorem haveTexts_iff (items : List Datum) : haveTexts items ↔ ∀ item ∈ items, hasText item := by
  induction items with
  | nil => simp [haveTexts]
  | cons item items ih => simp [haveTexts, ih]

theorem fieldsHaveTexts_iff (fields : Datum.Fields) :
    fieldsHaveTexts fields ↔ ∀ field ∈ fields, hasText field.2 := by
  induction fields with
  | nil => simp [fieldsHaveTexts]
  | cons field fields ih => simp [fieldsHaveTexts, ih]

theorem sortedItems_eq_map (items : List Datum) : sortedItems items = items.map sorted := by
  induction items with
  | nil => rfl
  | cons item items ih => rw [sortedItems, ih, List.map_cons]

theorem sortedFields_eq_map (fields : Datum.Fields) :
    sortedFields fields = fields.map fun field => (field.1, sorted field.2) := by
  induction fields with
  | nil => rfl
  | cons field fields ih => rw [sortedFields, ih, List.map_cons]

/-- Sorting a mapping permutes its fields and sorts their values. -/
theorem exists_sorted_mapping (fields : Datum.Fields) : ∃ others,
    sorted (.mapping fields) = .mapping others ∧
      others.Perm (fields.map fun field => (field.1, sorted field.2)) := by
  refine ⟨_, sorted.eq_2 fields, ?_⟩
  rw [sortedFields_eq_map]
  exact List.mergeSort_perm _ _

theorem map_fst_sorted (fields : Datum.Fields) :
    (fields.map fun field => (field.1, sorted field.2)).map Prod.fst = fields.map Prod.fst := by
  simp

theorem plain_of_hasText {d : Datum} (h : Distinct d) (htext : hasText d) : Plain d := by
  induction h with
  | null => exact .null
  | bool value => exact .bool value
  | int value => exact .int (by simpa [hasText] using htext)
  | float value => exact .float value
  | text value => exact .text value
  | list hitems ih =>
    rw [hasText, haveTexts_iff] at htext
    exact .list fun item hitem => ih item hitem (htext item hitem)
  | mapping hkeys hfields ih =>
    rw [hasText, fieldsHaveTexts_iff] at htext
    exact .mapping hkeys fun field hfield => ih field hfield (htext field hfield)

theorem plain_sorted {d : Datum} (h : Plain d) : Plain (sorted d) := by
  induction h with
  | null => exact .null
  | bool value => exact .bool value
  | int hwritable => exact .int hwritable
  | float value => exact .float value
  | text value => exact .text value
  | list hitems ih =>
    rw [sorted, sortedItems_eq_map]
    exact .list (by simpa using ih)
  | @mapping fields hkeys hfields ih =>
    obtain ⟨others, hsorted, hperm⟩ := exists_sorted_mapping fields
    rw [hsorted]
    refine .mapping ?_ fun field hfield => ?_
    · rw [(hperm.map Prod.fst).nodup_iff, map_fst_sorted]
      exact hkeys
    · obtain ⟨found, hfound, rfl⟩ := List.mem_map.mp (hperm.mem_iff.mp hfield)
      exact ih found hfound

theorem same_sorted {d : Datum} (h : Distinct d) : Same d (sorted d) := by
  induction h with
  | null | bool | int | float | text => exact .refl _
  | @list items hitems ih =>
    rw [sorted, sortedItems_eq_map]
    refine .list (by simp) fun i item other hitem hother => ?_
    rw [List.getElem?_map, hitem] at hother
    cases hother
    exact ih item (List.mem_of_getElem? hitem)
  | @mapping fields hkeys hfields ih =>
    obtain ⟨others, hsorted, hperm⟩ := exists_sorted_mapping fields
    rw [hsorted]
    refine .mapping ?_ fun key value other hvalue hother => ?_
    · rw [← map_fst_sorted]
      exact (hperm.map Prod.fst).symm
    · obtain ⟨found, hfound, heq⟩ := List.mem_map.mp (hperm.mem_iff.mp hother)
      cases heq
      -- a key has one value only
      have hsame := List.inj_on_of_nodup_map hkeys hvalue hfound rfl
      exact hsame ▸ ih _ hvalue

/-! ## Characters -/

/-- The characters of printable ASCII. -/
def isGraphic (c : Char) : Bool := 0x20 ≤ c.toNat && c.toNat ≤ 0x7E

theorem not_isBreak_of_isGraphic {c : Char} (h : isGraphic c) : Text.isBreak c = false := by
  simp only [isGraphic, Bool.and_eq_true, decide_eq_true_eq] at h
  simp [Text.isBreak]
  omega

theorem isGraphic_of_inNumeral {c : Char} (h : inNumeral c) : isGraphic c := by
  have hcases : isAsciiDigit c ∨ c ∈ ['.', 'e', 'E', '+', '-'] := by
    simpa [inNumeral, continuesNumber, or_assoc] using h
  obtain hdigit | hmark := hcases
  · simp only [isAsciiDigit, Bool.and_eq_true, decide_eq_true_eq] at hdigit
    simp only [isGraphic, Bool.and_eq_true, decide_eq_true_eq]
    omega
  · have hmarks : ∀ c ∈ ['.', 'e', 'E', '+', '-'], isGraphic c := by decide
    exact hmarks c hmark

theorem isGraphic_hexDigit (n : Nat) : isGraphic (Text.hexDigit n) := by
  have hdigits : ∀ d < 16, isGraphic (Nat.digitChar d) := by decide
  exact hdigits (n % 16) (Nat.mod_lt n (by decide))

theorem isGraphic_unitEscape (n : Nat) : ∀ c ∈ unitEscape n, isGraphic c := by
  simp [unitEscape, Text.hex, isGraphic_hexDigit]
  decide

theorem isGraphic_escapedChar (c : Char) : ∀ d ∈ escapedChar c, isGraphic d := by
  unfold escapedChar
  iterate 7
    split
    · decide
  split
  · rename_i hgraphic
    exact List.forall_mem_singleton.mpr hgraphic
  split
  · exact isGraphic_unitEscape _
  · exact List.forall_mem_append.mpr ⟨isGraphic_unitEscape _, isGraphic_unitEscape _⟩

theorem isGraphic_textChars (s : String) : ∀ c ∈ textChars s, isGraphic c := by
  simp only [textChars, List.forall_mem_cons, List.forall_mem_append, List.mem_flatMap]
  refine ⟨by decide, ?_, by decide⟩
  rintro c ⟨d, -, hc⟩
  exact isGraphic_escapedChar d c hc

theorem isGraphic_natChars (n : Nat) : ∀ c ∈ Number.natChars n, isGraphic c := fun _ hc =>
  isGraphic_of_inNumeral (inNumeral_of_isAsciiDigit (Number.isAsciiDigit_of_mem_natChars hc))

theorem isGraphic_floatChars (x : Number.Binary64) : ∀ c ∈ floatChars x, isGraphic c := by
  match x with
  | .nan => decide
  | .infinite negative => cases negative <;> decide
  | .finite negative m =>
    obtain ⟨n, -, -, hchars⟩ := exists_floatChars m
    have hdigits : ∀ c ∈ n.chars, isGraphic c := fun c hc =>
      isGraphic_of_inNumeral (inNumeral_of_mem_chars n c hc)
    rw [(hchars negative).1]
    split
    · exact List.forall_mem_cons.mpr ⟨by decide, hdigits⟩
    · exact hdigits

theorem isGraphic_intercalate {parts : List (List Char)} (h : ∀ part ∈ parts, ∀ c ∈ part, isGraphic c) :
    ∀ c ∈ [',', ' '].intercalate parts, isGraphic c := by
  induction parts with
  | nil => simp
  | cons part parts ih =>
    obtain ⟨hpart, hparts⟩ := List.forall_mem_cons.mp h
    cases parts with
    | nil => rwa [List.intercalate_singleton]
    | cons next parts =>
      rw [List.intercalate_cons_cons, List.forall_mem_append, List.forall_mem_append]
      exact ⟨⟨hpart, by decide⟩, ih hparts⟩

theorem isGraphic_bracketed {left right : Char} (hleft : isGraphic left) (hright : isGraphic right)
    {parts : List (List Char)} (h : ∀ part ∈ parts, ∀ c ∈ part, isGraphic c) :
    ∀ c ∈ bracketed .line left right parts, isGraphic c := by
  cases parts with
  | nil => simp [bracketed, hleft, hright]
  | cons part parts =>
    have hjoined := isGraphic_intercalate h
    simp only [bracketed, Style.line, List.nil_append, List.append_nil, List.forall_mem_cons,
      List.forall_mem_append]
    exact ⟨hleft, hjoined, hright, List.forall_mem_nil _⟩

theorem mem_itemChars {style : Nat → Style} {depth : Nat} {items : List Datum} {part : List Char} :
    part ∈ itemChars style depth items ↔ ∃ item ∈ items, chars style depth item = part := by
  induction items with
  | nil => simp [itemChars]
  | cons item items ih => simp [itemChars, ih, eq_comm]

theorem mem_fieldChars {style : Nat → Style} {depth : Nat} {fields : Datum.Fields} {part : List Char} :
    part ∈ fieldChars style depth fields ↔ ∃ field ∈ fields, fieldText style depth field = part := by
  induction fields with
  | nil => simp [fieldChars]
  | cons field fields ih => simp [fieldChars_cons, ih, eq_comm]

/-- The text of a datum on a line has no character outside printable ASCII. -/
theorem isGraphic_chars {d : Datum} (h : Plain d) (depth : Nat) :
    ∀ c ∈ chars lined depth d, isGraphic c := by
  induction h generalizing depth with
  | null => simp only [chars]; decide
  | bool value => cases value <;> (simp only [chars]; decide)
  | @int value _ =>
    rw [chars, Number.toList_toString_int]
    split
    · exact List.forall_mem_cons.mpr ⟨by decide, isGraphic_natChars _⟩
    · exact isGraphic_natChars _
  | float value => simpa only [chars] using isGraphic_floatChars value
  | text value => simpa only [chars] using isGraphic_textChars value
  | @list items _ ih =>
    rw [chars]
    refine isGraphic_bracketed (by decide) (by decide) fun part hpart => ?_
    obtain ⟨item, hitem, rfl⟩ := mem_itemChars.mp hpart
    exact ih item hitem (depth + 1)
  | @mapping fields _ _ ih =>
    rw [chars]
    refine isGraphic_bracketed (by decide) (by decide) fun part hpart => ?_
    obtain ⟨field, hfield, rfl⟩ := mem_fieldChars.mp hpart
    simp only [fieldText, List.forall_mem_append, List.forall_mem_cons]
    exact ⟨isGraphic_textChars _, by decide, by decide, ih field hfield (depth + 1)⟩

end Json
end Spreadsheet
