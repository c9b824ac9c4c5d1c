import Spreadsheet.Proofs.Data.Json.Scalar

/-! Data read back from JSON. In whatever style a datum is written, its text denotes it, if its whole
numbers are short enough to write and no mapping in it has a key twice. -/
namespace Spreadsheet.Json

open Number (natChars isWritable)
open Text (isAsciiDigit Stops)

/-! ## Data -/

/-- Data that its text denotes: whole numbers short enough to write, no key twice. -/
inductive Plain : Datum → Prop where
  | null : Plain .null
  | bool (value : Bool) : Plain (.bool value)
  | int {value : Int} : isWritable value → Plain (.int value)
  | float (value : Number.Binary64) : Plain (.float value)
  | text (value : String) : Plain (.text value)
  | list {items : List Datum} : (∀ item ∈ items, Plain item) → Plain (.list items)
  | mapping {fields : Datum.Fields} : (fields.map Prod.fst).Nodup →
      (∀ field ∈ fields, Plain field.2) → Plain (.mapping fields)

/-- Nothing but spaces stands between items. -/
def Style.Spaced (s : Style) : Prop :=
  (∀ c ∈ s.opening, isSpace c) ∧ (∀ c ∈ s.between, isSpace c) ∧ ∀ c ∈ s.closing, isSpace c

theorem spaced_block (depth : Nat) : (Style.block depth).Spaced := by
  have hinner : ∀ width, ∀ c ∈ '\n' :: List.replicate width ' ', isSpace c := by
    intro width c hc
    rcases List.mem_cons.mp hc with rfl | hc
    · rfl
    · rw [List.eq_of_mem_replicate hc]
      rfl
  exact ⟨hinner _, hinner _, hinner _⟩

/-- Whether a datum is read back from its text, whatever follows it but a digit, a point or an exponent. -/
def Restored (style : Nat → Style) (depth : Nat) (d : Datum) : Prop :=
  ∀ fuel rest, (chars style depth d).length ≤ fuel → Stops continuesNumber rest →
    readValue fuel (chars style depth d ++ rest) = .ok (d, rest)

variable {style : Nat → Style} {depth fuel : Nat} {cs spaces rest : List Char}

theorem skip_of_stops (h : Stops isSpace cs) : skip cs = cs := Text.dropWhile_of_stops h

theorem skip_append (hspaces : ∀ c ∈ spaces, isSpace c) (h : Stops isSpace rest) :
    skip (spaces ++ rest) = rest := Text.dropWhile_append_of_stops hspaces h

theorem not_continuesNumber_of_isSpace {c : Char} (h : isSpace c) : continuesNumber c = false := by
  simp only [isSpace, Bool.or_eq_true, beq_iff_eq] at h
  rcases h with ((rfl | rfl) | rfl) | rfl <;> rfl

theorem ne_of_isAsciiDigit {c d : Char} (h : isAsciiDigit c) (hd : isAsciiDigit d = false) : c ≠ d := by
  rintro rfl
  rw [h] at hd
  contradiction

theorem not_isSpace_of_isAsciiDigit {c : Char} (h : isAsciiDigit c) : isSpace c = false := by
  rw [Bool.eq_false_iff]
  intro hspace
  have hends := not_continuesNumber_of_isSpace hspace
  rw [continuesNumber, h] at hends
  contradiction

/-- Spaces end a number if what follows them does. -/
theorem stops_spaces (hspaces : ∀ c ∈ spaces, isSpace c) (h : Stops continuesNumber rest) :
    Stops continuesNumber (spaces ++ rest) := by
  cases spaces with
  | nil => exact h
  | cons c spaces =>
    exact Text.stops_cons.mpr (not_continuesNumber_of_isSpace (hspaces c List.mem_cons_self))

/-- The text of a datum starts with no space, and does not close a list. -/
theorem chars_eq_cons (style : Nat → Style) (depth : Nat) {d : Datum} (h : Plain d) :
    ∃ c cs, chars style depth d = c :: cs ∧ isSpace c = false ∧ c ≠ ']' := by
  cases h with
  | null => exact ⟨_, _, rfl, rfl, by decide⟩
  | bool value => cases value <;> exact ⟨_, _, rfl, rfl, by decide⟩
  | @int value _ =>
    rw [chars, Number.toList_toString_int]
    split
    · exact ⟨_, _, rfl, rfl, by decide⟩
    · obtain ⟨c, digits, hcons⟩ := List.exists_cons_of_ne_nil (Number.natChars_ne_nil value.natAbs)
      have hdigit := Number.isAsciiDigit_of_mem_natChars (hcons ▸ List.mem_cons_self)
      exact ⟨c, digits, hcons, not_isSpace_of_isAsciiDigit hdigit, ne_of_isAsciiDigit hdigit rfl⟩
  | float value =>
    rw [chars]
    match value with
    | .nan => exact ⟨_, _, rfl, rfl, by decide⟩
    | .infinite negative => cases negative <;> exact ⟨_, _, rfl, rfl, by decide⟩
    | .finite negative m =>
      obtain ⟨n, -, -, hchars⟩ := exists_floatChars m
      rw [(hchars negative).1]
      obtain ⟨c, rest, hcons, hdigit⟩ := n.exists_chars
      split
      · exact ⟨_, _, rfl, rfl, by decide⟩
      · exact ⟨c, rest, hcons, not_isSpace_of_isAsciiDigit hdigit, ne_of_isAsciiDigit hdigit rfl⟩
  | text value => exact ⟨_, _, rfl, rfl, by decide⟩
  | @list items _ =>
    rw [chars, bracketed.eq_def]
    split <;> exact ⟨_, _, rfl, rfl, by decide⟩
  | @mapping fields _ _ =>
    rw [chars, bracketed.eq_def]
    split <;> exact ⟨_, _, rfl, rfl, by decide⟩

theorem stops_isSpace_chars {d : Datum} (h : Plain d) (rest : List Char) :
    Stops isSpace (chars style depth d ++ rest) := by
  obtain ⟨c, cs, hcons, hspace, -⟩ := chars_eq_cons style depth h
  rw [hcons]
  exact Text.stops_cons.mpr hspace

/-- Reads an item up to what follows it. -/
theorem readItems_item {item : Datum} {read : List Datum} (hitem : Restored style depth item)
    (hfuel : (chars style depth item).length ≤ fuel) (hrest : Stops continuesNumber rest) :
    readItems (fuel + 1) read (chars style depth item ++ rest) =
      match skip rest with
      | ',' :: rest => readItems fuel (item :: read) (skip rest)
      | ']' :: rest => .ok (.list (item :: read).reverse, rest)
      | _ => .error .malformed := by
  rewrite [readItems, hitem fuel rest hfuel hrest]
  rfl

/-- What is joined starts with the first part. -/
theorem exists_intercalate (separator first : List Char) (parts : List (List Char)) :
    ∃ tail, separator.intercalate (first :: parts) = first ++ tail := by
  cases parts with
  | nil => exact ⟨[], by rw [List.intercalate_singleton, List.append_nil]⟩
  | cons next parts => exact ⟨_, by rw [List.intercalate_cons_cons, List.append_assoc]⟩

/-- Items start with no space, and do not close their list. -/
theorem stops_items (separator : List Char) {item : Datum} {items : List Datum} (h : Plain item)
    (rest : List Char) :
    Stops isSpace (separator.intercalate (itemChars style depth (item :: items)) ++ rest) ∧
      Stops (· == ']') (separator.intercalate (itemChars style depth (item :: items)) ++ rest) := by
  obtain ⟨tail, htail⟩ := exists_intercalate separator (chars style depth item)
    (itemChars style depth items)
  obtain ⟨c, cs, hcons, hspace, hne⟩ := chars_eq_cons style depth h
  rw [itemChars, htail, hcons, List.append_assoc, List.cons_append]
  exact ⟨Text.stops_cons.mpr hspace, Text.stops_cons.mpr (beq_false_of_ne hne)⟩

/-- Items with commas between them are read one after the other. -/
theorem readItems_itemChars {s : Style} (hs : s.Spaced) {item : Datum} {items read : List Datum}
    (hplain : ∀ d ∈ item :: items, Plain d) (hitems : ∀ d ∈ item :: items, Restored style depth d)
    (hfuel : ((',' :: s.between).intercalate (itemChars style depth (item :: items))).length < fuel) :
    readItems fuel read ((',' :: s.between).intercalate (itemChars style depth (item :: items)) ++
      (s.closing ++ ']' :: rest)) = .ok (.list (read.reverse ++ item :: items), rest) := by
  obtain ⟨-, hbetween, hclosing⟩ := hs
  induction items generalizing item read fuel with
  | nil =>
    obtain ⟨fuel, rfl⟩ := Nat.exists_eq_succ_of_ne_zero (Nat.ne_zero_of_lt hfuel)
    rw [itemChars, itemChars, List.intercalate_singleton] at hfuel ⊢
    rw [readItems_item (hitems item List.mem_cons_self) (Nat.le_of_lt_succ hfuel)
        (stops_spaces hclosing (Text.stops_cons.mpr rfl)),
      skip_append hclosing (Text.stops_cons.mpr rfl), ← List.reverse_cons]
    rfl
  | cons next items ih =>
    obtain ⟨fuel, rfl⟩ := Nat.exists_eq_succ_of_ne_zero (Nat.ne_zero_of_lt hfuel)
    have htail := fun d (hd : d ∈ next :: items) => List.mem_cons_of_mem item hd
    rw [itemChars, itemChars, List.intercalate_cons_cons, ← itemChars] at hfuel ⊢
    simp only [List.length_append, List.length_cons] at hfuel
    rw [List.append_assoc, List.append_assoc, List.cons_append,
      readItems_item (hitems item List.mem_cons_self) (by omega) (Text.stops_cons.mpr rfl),
      skip_of_stops (Text.stops_cons.mpr rfl)]
    change readItems fuel (item :: read) (skip (s.between ++ _)) = _
    rw [skip_append hbetween (stops_items _ (hplain next (htail next List.mem_cons_self)) _).1,
      ih (fun d hd => hplain d (htail d hd)) (fun d hd => hitems d (htail d hd)) (by omega),
      List.reverse_cons, List.append_assoc, List.singleton_append]

theorem put_of_notMem {key : String} {value : Datum} {fields : Datum.Fields}
    (h : key ∉ fields.map Prod.fst) : Datum.put key value fields = fields ++ [(key, value)] := by
  induction fields with
  | nil => rfl
  | cons field fields ih =>
    rw [List.map_cons, List.mem_cons, not_or] at h
    rw [Datum.put, if_neg (Ne.symm h.1), ih h.2, List.cons_append]

theorem notMem_of_nodup {field : String × Datum} {read fields : Datum.Fields}
    (h : ((read ++ field :: fields).map Prod.fst).Nodup) : field.1 ∉ read.map Prod.fst := by
  intro hmem
  rw [List.map_append, List.nodup_append] at h
  exact h.2.2 _ hmem _ List.mem_cons_self rfl

def fieldText (style : Nat → Style) (depth : Nat) (field : String × Datum) : List Char :=
  textChars field.1 ++ ':' :: ' ' :: chars style depth field.2

theorem fieldChars_cons (field : String × Datum) (fields : Datum.Fields) :
    fieldChars style depth (field :: fields) =
      fieldText style depth field :: fieldChars style depth fields := rfl

/-- Fields start with the mark of their first key. -/
theorem stops_fields {p : Char → Bool} (separator : List Char) (field : String × Datum)
    (fields : Datum.Fields) (rest : List Char) (hp : p '"' = false) :
    Stops p (separator.intercalate (fieldChars style depth (field :: fields)) ++ rest) := by
  obtain ⟨tail, htail⟩ := exists_intercalate separator (fieldText style depth field)
    (fieldChars style depth fields)
  rw [fieldChars_cons, htail]
  exact Text.stops_cons.mpr hp

/-- Reads a field up to what follows it. -/
theorem readFields_field {field : String × Datum} {read : Datum.Fields} (hplain : Plain field.2)
    (hvalue : Restored style depth field.2) (hkey : field.1 ∉ read.map Prod.fst)
    (hfuel : (fieldText style depth field).length ≤ fuel) (hrest : Stops continuesNumber rest) :
    readFields (fuel + 1) read (fieldText style depth field ++ rest) =
      match skip rest with
      | ',' :: rest => readFields fuel (read ++ [field]) (skip rest)
      | '\x7d' :: rest => .ok (.mapping (read ++ [field]), rest)
      | _ => .error .malformed := by
  have hcolon : ∀ cs, skip (':' :: cs) = ':' :: cs := fun cs => skip_of_stops (Text.stops_cons.mpr rfl)
  have hspace : skip ([' '] ++ (chars style depth field.2 ++ rest)) = chars style depth field.2 ++ rest :=
    skip_append (by simp [isSpace]) (stops_isSpace_chars hplain rest)
  rw [List.singleton_append] at hspace
  unfold fieldText at hfuel ⊢
  simp only [List.length_append, List.length_cons] at hfuel
  have hput : Datum.put field.1 field.2 read = read ++ [field] := put_of_notMem hkey
  rw [List.append_assoc, List.cons_append, List.cons_append, textChars_append, readFields,
    readText_textChars]
  simp only [hcolon, hspace]
  rewrite [hvalue fuel rest (by omega) hrest, ← hput]
  rfl

/-- Fields with commas between them are read one after the other, and none replaces one before. -/
theorem readFields_fieldChars {s : Style} (hs : s.Spaced) {field : String × Datum}
    {fields read : Datum.Fields} (hkeys : ((read ++ field :: fields).map Prod.fst).Nodup)
    (hplain : ∀ f ∈ field :: fields, Plain f.2)
    (hfields : ∀ f ∈ field :: fields, Restored style depth f.2)
    (hfuel : ((',' :: s.between).intercalate (fieldChars style depth (field :: fields))).length < fuel) :
    readFields fuel read ((',' :: s.between).intercalate (fieldChars style depth (field :: fields)) ++
      (s.closing ++ '\x7d' :: rest)) = .ok (.mapping (read ++ field :: fields), rest) := by
  obtain ⟨-, hbetween, hclosing⟩ := hs
  induction fields generalizing field read fuel with
  | nil =>
    obtain ⟨fuel, rfl⟩ := Nat.exists_eq_succ_of_ne_zero (Nat.ne_zero_of_lt hfuel)
    rw [fieldChars_cons, fieldChars, List.intercalate_singleton] at hfuel ⊢
    rw [readFields_field (hplain field List.mem_cons_self) (hfields field List.mem_cons_self)
        (notMem_of_nodup hkeys) (Nat.le_of_lt_succ hfuel)
        (stops_spaces hclosing (Text.stops_cons.mpr rfl)),
      skip_append hclosing (Text.stops_cons.mpr rfl)]
    rfl
  | cons next fields ih =>
    obtain ⟨fuel, rfl⟩ := Nat.exists_eq_succ_of_ne_zero (Nat.ne_zero_of_lt hfuel)
    have htail := fun f (hf : f ∈ next :: fields) => List.mem_cons_of_mem field hf
    have happend : read ++ field :: next :: fields = read ++ [field] ++ next :: fields := by
      rw [List.append_assoc, List.singleton_append]
    rw [fieldChars_cons, fieldChars_cons, List.intercalate_cons_cons, ← fieldChars_cons] at hfuel ⊢
    simp only [List.length_append, List.length_cons] at hfuel
    rw [List.append_assoc, List.append_assoc, List.cons_append,
      readFields_field (hplain field List.mem_cons_self) (hfields field List.mem_cons_self)
        (notMem_of_nodup hkeys) (by omega) (Text.stops_cons.mpr rfl),
      skip_of_stops (Text.stops_cons.mpr rfl)]
    change readFields fuel (read ++ [field]) (skip (s.between ++ _)) = _
    rw [skip_append hbetween (stops_fields _ next fields _ rfl), ih (happend ▸ hkeys)
      (fun f hf => hplain f (htail f hf)) (fun f hf => hfields f (htail f hf)) (by omega), happend]

/-- What starts with a digit, or with one behind a minus sign, is read as a number. -/
theorem readValue_digit (fuel : Nat) {c : Char} (h : isAsciiDigit c) (negative : Bool) :
    readValue (fuel + 1) (if negative then '-' :: c :: cs else c :: cs) =
      readUnsigned negative (c :: cs) := by
  have hne : ∀ d : Char, isAsciiDigit d = false → d ≠ c := fun d hd => (ne_of_isAsciiDigit h hd).symm
  have hword : readWord? (c :: cs) = none := by
    simp [readWord?, words, hne 'n' rfl, hne 't' rfl, hne 'f' rfl, hne 'N' rfl, hne 'I' rfl,
      hne '-' rfl]
  have hword' : readWord? ('-' :: c :: cs) = none := by
    simp [readWord?, words, hne 'I' rfl]
  cases negative with
  | false =>
    rw [if_neg Bool.false_ne_true, readValue.eq_5, hword]
    · exact readNumber_digit h cs
    all_goals exact fun _ heq => hne _ rfl (List.cons.inj heq).1.symm
  | true =>
    rw [if_pos rfl, readValue.eq_5, hword']
    · rfl
    all_goals nofun

theorem readValue_int {i : Int} (h : isWritable i) (hrest : Stops continuesNumber rest) :
    readValue (fuel + 1) ((toString i).toList ++ rest) = .ok (.int i, rest) := by
  obtain ⟨c, digits, hcons⟩ := List.exists_cons_of_ne_nil (Number.natChars_ne_nil i.natAbs)
  have hdigit := Number.isAsciiDigit_of_mem_natChars (hcons ▸ List.mem_cons_self)
  have hsigned : Number.signed (i < 0) i.natAbs = i := by
    rw [Number.signed]
    simp only [decide_eq_true_eq]
    split <;> omega
  have hwritable : isWritable (i.natAbs : Int) := h
  have hnumber := readUnsigned_natChars hwritable (i < 0) hrest
  rw [hsigned, hcons, List.cons_append, ← readValue_digit fuel hdigit] at hnumber
  rw [Number.toList_toString_int, ← hnumber, hcons]
  by_cases hi : i < 0 <;> simp [hi]

theorem readValue_float (x : Number.Binary64) (hrest : Stops continuesNumber rest) :
    readValue (fuel + 1) (floatChars x ++ rest) = .ok (.float x, rest) := by
  match x with
  | .nan => rfl
  | .infinite negative => cases negative <;> rfl
  | .finite negative m =>
    obtain ⟨n, htidy, hmark, hchars⟩ := exists_floatChars m
    obtain ⟨c, digits, hcons, hdigit⟩ := n.exists_chars
    have hnumber := readUnsigned_numeral n htidy hmark negative hrest
    rw [(hchars negative).2] at hnumber
    rw [← hnumber, (hchars negative).1, hcons, List.cons_append, ← readValue_digit fuel hdigit]
    cases negative <;> rfl

theorem readValue_list (hcs : Stops (· == ']') (skip cs)) :
    readValue (fuel + 1) ('[' :: cs) = readItems fuel [] (skip cs) := by
  rw [readValue]
  split
  · rename_i heq
    rw [heq] at hcs
    exact absurd (Text.stops_cons.mp hcs) (by decide)
  · rfl

theorem readValue_mapping (hcs : Stops (· == '\x7d') (skip cs)) :
    readValue (fuel + 1) ('\x7b' :: cs) = readFields fuel [] (skip cs) := by
  rw [readValue]
  split
  · rename_i heq
    rw [heq] at hcs
    exact absurd (Text.stops_cons.mp hcs) (by decide)
  · rfl

theorem bracketed_append (s : Style) (left right : Char) (part : List Char) (parts : List (List Char))
    (rest : List Char) : bracketed s left right (part :: parts) ++ rest =
      left :: (s.opening ++ ((',' :: s.between).intercalate (part :: parts) ++
        (s.closing ++ right :: rest))) := by
  simp [bracketed]

theorem length_bracketed (s : Style) (left right : Char) (part : List Char) (parts : List (List Char)) :
    ((',' :: s.between).intercalate (part :: parts)).length + 2 ≤
      (bracketed s left right (part :: parts)).length := by
  simp only [bracketed, List.length_cons, List.length_append, List.length_nil]
  omega

theorem restored_of_succ {d : Datum} (hplain : Plain d)
    (h : ∀ fuel rest, (chars style depth d).length ≤ fuel + 1 → Stops continuesNumber rest →
      readValue (fuel + 1) (chars style depth d ++ rest) = .ok (d, rest)) : Restored style depth d := by
  intro fuel rest hfuel hrest
  cases fuel with
  | zero =>
    obtain ⟨c, cs, hcons, -⟩ := chars_eq_cons style depth hplain
    rw [hcons] at hfuel
    contradiction
  | succ fuel => exact h fuel rest hfuel hrest

theorem restored_list (hstyle : (style depth).Spaced) {items : List Datum} (hplain : ∀ d ∈ items, Plain d)
    (hitems : ∀ d ∈ items, Restored style (depth + 1) d) : Restored style depth (.list items) := by
  refine restored_of_succ (.list hplain) fun fuel rest hfuel _ => ?_
  rw [chars] at hfuel ⊢
  cases items with
  | nil => rfl
  | cons item items =>
    let joined := (',' :: (style depth).between).intercalate (itemChars style (depth + 1) (item :: items))
    have hlength : joined.length + 2 ≤ fuel + 1 := Nat.le_trans (length_bracketed ..) hfuel
    have hread : readItems fuel [] (joined ++ ((style depth).closing ++ ']' :: rest)) =
        .ok (.list (item :: items), rest) :=
      readItems_itemChars hstyle hplain hitems (Nat.lt_of_succ_le (Nat.le_of_succ_le_succ hlength))
    have hskip : skip ((style depth).opening ++ (joined ++ ((style depth).closing ++ ']' :: rest))) =
        joined ++ ((style depth).closing ++ ']' :: rest) :=
      skip_append hstyle.1 (stops_items _ (hplain item List.mem_cons_self) _).1
    rw [itemChars, bracketed_append, ← itemChars, readValue_list, hskip, hread]
    rw [hskip]
    exact (stops_items _ (hplain item List.mem_cons_self) _).2

theorem restored_mapping (hstyle : (style depth).Spaced) {fields : Datum.Fields}
    (hkeys : (fields.map Prod.fst).Nodup) (hplain : ∀ f ∈ fields, Plain f.2)
    (hfields : ∀ f ∈ fields, Restored style (depth + 1) f.2) :
    Restored style depth (.mapping fields) := by
  refine restored_of_succ (.mapping hkeys hplain) fun fuel rest hfuel _ => ?_
  rw [chars] at hfuel ⊢
  cases fields with
  | nil => rfl
  | cons field fields =>
    let joined := (',' :: (style depth).between).intercalate (fieldChars style (depth + 1) (field :: fields))
    have hlength : joined.length + 2 ≤ fuel + 1 := Nat.le_trans (length_bracketed ..) hfuel
    have hread : readFields fuel [] (joined ++ ((style depth).closing ++ '\x7d' :: rest)) =
        .ok (.mapping (field :: fields), rest) :=
      readFields_fieldChars hstyle hkeys hplain hfields
        (Nat.lt_of_succ_le (Nat.le_of_succ_le_succ hlength))
    have hskip : skip ((style depth).opening ++ (joined ++ ((style depth).closing ++ '\x7d' :: rest))) =
        joined ++ ((style depth).closing ++ '\x7d' :: rest) :=
      skip_append hstyle.1 (stops_fields _ field fields _ rfl)
    rw [fieldChars_cons, bracketed_append, ← fieldChars_cons, readValue_mapping, hskip, hread]
    rw [hskip]
    exact stops_fields _ field fields _ rfl

/-- However it is styled, the text of a datum is read as that datum. -/
theorem restored (hstyle : ∀ depth, (style depth).Spaced) {d : Datum} (hd : Plain d) (depth : Nat) :
    Restored style depth d := by
  induction hd generalizing depth with
  | null => exact restored_of_succ .null fun _ _ _ _ => rfl
  | bool value => exact restored_of_succ (.bool value) fun _ _ _ _ => by cases value <;> rfl
  | int hwritable =>
    exact restored_of_succ (.int hwritable) fun _ _ _ hrest => readValue_int hwritable hrest
  | float value => exact restored_of_succ (.float value) fun _ _ _ hrest => readValue_float value hrest
  | text value =>
    refine restored_of_succ (.text value) fun fuel rest _ _ => ?_
    rw [chars, textChars_append, readValue, readText_textChars]
    rfl
  | list hplain ih => exact restored_list (hstyle depth) hplain fun d hd => ih d hd (depth + 1)
  | mapping hkeys hplain ih =>
    exact restored_mapping (hstyle depth) hkeys hplain fun f hf => ih f hf (depth + 1)

/-- A datum is read from its text in any style, with spaces after it. -/
theorem parse_chars (hstyle : ∀ depth, (style depth).Spaced) {d : Datum} (h : Plain d)
    (hspaces : ∀ c ∈ spaces, isSpace c) :
    parse (String.ofList (chars style 0 d ++ spaces)) = .ok d := by
  have hends : Stops continuesNumber spaces := by
    have hstops := stops_spaces hspaces (Text.stops_nil continuesNumber)
    rwa [List.append_nil] at hstops
  have hend : skip spaces = [] := by
    have hskip := skip_append hspaces (Text.stops_nil isSpace)
    rwa [List.append_nil] at hskip
  unfold parse
  dsimp only
  rw [String.toList_ofList, skip_of_stops (stops_isSpace_chars h _),
    restored hstyle h 0 _ _ (by rw [List.length_append]; omega) hends]
  dsimp only
  rw [hend]
  rfl

theorem parse_block {d : Datum} (h : Plain d) {spaces : String} (hspaces : ∀ c ∈ spaces.toList, isSpace c) :
    parse (block d ++ spaces) = .ok d := by
  rw [← parse_chars spaced_block h hspaces, block, String.ofList_append, String.ofList_toList]

theorem spaced_line : Style.line.Spaced := by
  constructor <;> simp [Style.line, isSpace]

/-- Everything on one line. -/
abbrev lined : Nat → Style := fun _ => .line

theorem restored_lined {d : Datum} (h : Plain d) (depth : Nat) : Restored lined depth d :=
  restored (fun _ => spaced_line) h depth

theorem parse_line {d : Datum} (h : Plain d) : parse (line d) = .ok d := by
  have hparse := parse_chars (fun _ => spaced_line) h (List.forall_mem_nil _)
  rwa [List.append_nil] at hparse

end Spreadsheet.Json
