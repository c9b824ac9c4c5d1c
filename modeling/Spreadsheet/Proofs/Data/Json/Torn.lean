import Spreadsheet.Proofs.Data.Json.Cut

/-! Data that were cut off in the middle of their text. Whatever the datum, and wherever the cut is, nothing
is read from what is left of it and the text behind the cut. -/
namespace Spreadsheet.Json

open Number (natChars isWritable maxDigits Numeral)
open Text (isAsciiDigit Stops)

/-! ## Fuel -/

/-- Whether a reader with less fuel finds the same as one with more, unless its fuel runs out. -/
def RunsOut {α : Type} (less more : Result α) : Prop := less = .error .malformed ∨ more = less

section Step

variable {fuel : Nat} (hvalue : ∀ cs, RunsOut (readValue fuel cs) (readValue (fuel + 1) cs))
  (hitems : ∀ read cs, RunsOut (readItems fuel read cs) (readItems (fuel + 1) read cs))
  (hfields : ∀ read cs, RunsOut (readFields fuel read cs) (readFields (fuel + 1) read cs))

include hitems hfields in
theorem runsOut_readValue (cs : List Char) :
    RunsOut (readValue (fuel + 1) cs) (readValue (fuel + 1 + 1) cs) := by
  rw [readValue.eq_def (fuel + 1 + 1), readValue.eq_def (fuel + 1)]
  dsimp only
  split
  · exact .inr rfl
  · split
    · exact .inr rfl
    · exact hitems _ _
  · split
    · exact .inr rfl
    · exact hfields _ _
  · exact .inr rfl

include hvalue hitems in
theorem runsOut_readItems (read : List Datum) (cs : List Char) :
    RunsOut (readItems (fuel + 1) read cs) (readItems (fuel + 1 + 1) read cs) := by
  rw [readItems.eq_def (fuel + 1 + 1), readItems.eq_def (fuel + 1)]
  dsimp only
  obtain h | h := hvalue cs
  · exact .inl (by rw [h])
  rw [h]
  split
  · exact .inr rfl
  · split
    · exact hitems _ _
    · exact .inr rfl
    · exact .inr rfl

include hvalue hfields in
theorem runsOut_readFields (read : Datum.Fields) (cs : List Char) :
    RunsOut (readFields (fuel + 1) read cs) (readFields (fuel + 1 + 1) read cs) := by
  rw [readFields.eq_def (fuel + 1 + 1), readFields.eq_def (fuel + 1)]
  dsimp only
  split
  · split
    · exact .inr rfl
    · split
      · rename_i rest _
        obtain h | h := hvalue (skip rest)
        · exact .inl (by rw [h])
        rw [h]
        split
        · exact .inr rfl
        · split
          · exact hfields _ _
          · exact .inr rfl
          · exact .inr rfl
      · exact .inr rfl
  · exact .inr rfl

end Step

/-- One more step of fuel changes a result only where it ran out. -/
theorem runsOut_succ (fuel : Nat) :
    (∀ cs, RunsOut (readValue fuel cs) (readValue (fuel + 1) cs)) ∧
    (∀ read cs, RunsOut (readItems fuel read cs) (readItems (fuel + 1) read cs)) ∧
    ∀ read cs, RunsOut (readFields fuel read cs) (readFields (fuel + 1) read cs) := by
  induction fuel with
  | zero => exact ⟨fun _ => .inl rfl, fun _ _ => .inl rfl, fun _ _ => .inl rfl⟩
  | succ fuel ih =>
    obtain ⟨hvalue, hitems, hfields⟩ := ih
    exact ⟨runsOut_readValue hitems hfields, runsOut_readItems hvalue hitems,
      runsOut_readFields hvalue hfields⟩

theorem runsOut_add (fuel more : Nat) (cs : List Char) :
    RunsOut (readValue fuel cs) (readValue (fuel + more) cs) := by
  induction more with
  | zero => exact .inr rfl
  | succ more ih =>
    obtain h | h := ih
    · exact .inl h
    · obtain hless | hmore := (runsOut_succ (fuel + more)).1 cs
      · exact .inl (h.symm.trans hless)
      · exact .inr (hmore.trans h)

theorem RunsOut.hopeless {α : Type} {less more : Result α} (h : RunsOut less more) (hmore : Hopeless more) :
    Hopeless less := by
  obtain rfl | rfl := h
  · rfl
  · exact hmore

theorem RunsOut.eq_malformed {α : Type} {less more : Result α} (h : RunsOut less more)
    (hmore : more = .error .malformed) : less = .error .malformed := by
  obtain rfl | rfl := h
  · rfl
  · exact hmore

/-! ## Scalars -/

variable {part back rest : List Char} {c : Char}

/-- Whether a reader gets nowhere with a datum that was cut off. -/
def Torn (style : Nat → Style) (depth : Nat) (d : Datum) : Prop :=
  ∀ part cs fuel, Cut part (chars style depth d) → Foreign cs → Hopeless (readValue fuel (part ++ cs))

variable {style : Nat → Style} {depth : Nat}

/-- It is enough to look at cuts behind the first character. -/
theorem torn_of_ne_nil {d : Datum}
    (h : ∀ part cs fuel, Cut part (chars style depth d) → part ≠ [] → Foreign cs →
      Hopeless (readValue (fuel + 1) (part ++ cs))) : Torn style depth d := by
  intro part cs fuel hcut hcs
  by_cases hne : part = []
  · rw [hne]
    exact hcs.value fuel
  · cases fuel with
    | zero => rfl
    | succ fuel => exact h part cs fuel hcut hne hcs

theorem torn_null : Torn style depth .null := by
  refine torn_of_ne_nil fun part cs fuel hcut hne hcs => ?_
  rw [chars] at hcut
  exact readValue_cut_word (by decide) hcut hne hcs fuel

theorem torn_bool (value : Bool) : Torn style depth (.bool value) := by
  refine torn_of_ne_nil fun part cs fuel hcut hne hcs => ?_
  rw [chars] at hcut
  cases value <;> exact readValue_cut_word (by decide) hcut hne hcs fuel

theorem torn_text (value : String) : Torn style depth (.text value) := by
  refine torn_of_ne_nil fun part cs fuel hcut hne hcs => ?_
  rw [chars, textChars] at hcut
  obtain rfl | ⟨tail, rfl, htail⟩ := cut_cons.mp hcut
  · contradiction
  · rw [List.cons_append, readValue]
    exact hopeless_map (readText_cut htail hcs) fun _ => rfl

theorem torn_int {i : Int} (h : isWritable i) : Torn style depth (.int i) := by
  refine torn_of_ne_nil fun part cs fuel hcut hne hcs => ?_
  rw [chars, Number.toList_toString_int] at hcut
  obtain ⟨c, digits, hcons⟩ := List.exists_cons_of_ne_nil (Number.natChars_ne_nil i.natAbs)
  have hall : ∀ c ∈ natChars i.natAbs, isAsciiDigit c := fun _ => Number.isAsciiDigit_of_mem_natChars
  have hlength : (natChars i.natAbs).length ≤ maxDigits := by
    rw [Number.length_natChars_le_iff (by decide)]
    unfold isWritable at h
    generalize Number.tenTo maxDigits = limit at h ⊢
    simpa using h
  refine @readValue_cut_number part (natChars i.natAbs) cs (i < 0) ⟨c, digits, hcons, ?_⟩
    (fun c hc => inNumeral_of_isAsciiDigit (hall c hc)) ?_ (by simpa using hcut) hne hcs fuel
  · exact hall c (hcons ▸ List.mem_cons_self)
  · exact Nat.le_trans (List.takeWhile_prefix _).length_le hlength

theorem torn_float (x : Number.Binary64) : Torn style depth (.float x) := by
  refine torn_of_ne_nil fun part cs fuel hcut hne hcs => ?_
  rw [chars] at hcut
  cases x with
  | nan => exact readValue_cut_word (by decide) hcut hne hcs fuel
  | infinite negative => cases negative <;> exact readValue_cut_word (by decide) hcut hne hcs fuel
  | finite negative m =>
    obtain ⟨n, htidy, -, hchars⟩ := exists_floatChars m
    rw [(hchars negative).1] at hcut
    refine readValue_cut_number negative n.exists_chars (inNumeral_of_mem_chars n) ?_ hcut hne hcs fuel
    have hstops := stops_fraction n (Text.stops_nil isAsciiDigit)
    rw [List.append_nil] at hstops
    rw [Numeral.chars, Text.takeWhile_append_of_stops n.isAsciiDigit_whole hstops]
    exact Nat.le_trans htidy.length_le (by decide)

/-! ## Lists and mappings

They are written on one line. -/

section Brackets

variable {cs : List Char} {fuel : Nat}

theorem skip_foreign (hcs : Foreign cs) : skip cs = cs := skip_of_stops (hcs.stops rfl)

theorem skip_space (hspace : isSpace c) (cs : List Char) : skip (c :: cs) = skip cs :=
  List.dropWhile_cons_of_pos hspace

/-- What hangs is no comma and no bracket. -/
theorem Hanging.of_skip (h : Hanging cs) (hskip : skip cs = c :: rest) :
    c ≠ ',' ∧ c ≠ ':' ∧ c ≠ ']' ∧ c ≠ '\x7d' := by
  have hc := h c (by rw [hskip]; rfl)
  simpa using hc

/-- After an item a list goes on with a comma or ends. -/
theorem readItems_hanging {read : List Datum} (h : Hopeless (readValue fuel cs)) :
    readItems (fuel + 1) read cs = .error .malformed := by
  rw [readItems]
  cases hread : readValue fuel cs with
  | error fault =>
    rw [hread] at h
    exact congrArg _ h
  | ok found =>
    obtain ⟨item, rest⟩ := found
    rw [hread] at h
    dsimp only
    split
    · exact absurd rfl (Hanging.of_skip h ‹_›).1
    · exact absurd rfl (Hanging.of_skip h ‹_›).2.2.1
    · rfl

theorem stops_cut {p : Char → Bool} (hcut : Cut part whole) (hwhole : Stops p whole)
    (hp : p '\x7b' = false) (hcs : Foreign cs) : Stops p (part ++ cs) := by
  obtain ⟨d, rest, rfl⟩ := hcut
  cases part with
  | nil => exact hcs.stops hp
  | cons c part => exact Text.stops_cons.mpr (Text.stops_cons.mp hwhole)

/-- A space before a text that was cut off can be skipped. -/
theorem skip_cut (hcut : Cut part (' ' :: whole)) (hwhole : Stops isSpace whole) (hne : whole ≠ [])
    (hcs : Foreign cs) :
    ∃ tail, skip (part ++ cs) = tail ++ cs ∧ Cut tail whole ∧ tail.length ≤ part.length := by
  obtain rfl | ⟨tail, rfl, htail⟩ := cut_cons.mp hcut
  · obtain ⟨c, rest, rfl⟩ := List.exists_cons_of_ne_nil hne
    exact ⟨[], skip_foreign hcs, ⟨c, rest, rfl⟩, Nat.le_refl _⟩
  · refine ⟨tail, ?_, htail, Nat.le_succ _⟩
    rw [List.cons_append, skip_space rfl, skip_of_stops (stops_cut htail hwhole rfl hcs)]

/-- With a whole datum a reader gets as far as the text behind it. -/
theorem hopeless_whole {d : Datum} (h : Plain d) (hcs : Foreign cs) :
    Hopeless (readValue fuel (chars lined depth d ++ cs)) := by
  refine (runsOut_add fuel (chars lined depth d).length _).hopeless ?_
  rw [restored_lined h depth _ cs (Nat.le_add_left _ _) (hcs.stops rfl)]
  exact hcs.hanging

theorem readItems_cut {item : Datum} {items read : List Datum} (hplain : ∀ d ∈ item :: items, Plain d)
    (htorn : ∀ d ∈ item :: items, Torn lined depth d)
    (hcut : Cut part ([',', ' '].intercalate (itemChars lined depth (item :: items)) ++ [']']))
    (hcs : Foreign cs) (hfuel : (part ++ cs).length < fuel) :
    readItems fuel read (part ++ cs) = .error .malformed := by
  have hitem : ∀ fuel, Hopeless (readValue fuel (chars lined depth item ++ cs)) :=
    fun _ => hopeless_whole (hplain item List.mem_cons_self) hcs
  obtain ⟨fuel, rfl⟩ := Nat.exists_eq_succ_of_ne_zero (Nat.ne_zero_of_lt hfuel)
  induction items generalizing item part read fuel with
  | nil =>
    rw [itemChars, itemChars, List.intercalate_singleton, cut_append] at hcut
    obtain hcut | ⟨tail, rfl, htail⟩ := hcut
    · exact readItems_hanging (htorn item List.mem_cons_self part cs fuel hcut hcs)
    · obtain rfl | ⟨after, rfl, hnil⟩ := cut_cons.mp htail
      · rw [List.append_nil]
        exact readItems_hanging (hitem fuel)
      · exact absurd hnil not_cut_nil
  | cons next items ih =>
    rw [itemChars, itemChars, List.intercalate_cons_cons, ← itemChars, List.append_assoc,
      List.append_assoc, cut_append] at hcut
    obtain hcut | ⟨tail, rfl, htail⟩ := hcut
    · exact readItems_hanging (htorn item List.mem_cons_self part cs fuel hcut hcs)
    obtain rfl | ⟨after, rfl, hafter⟩ := cut_cons.mp htail
    · rw [List.append_nil]
      exact readItems_hanging (hitem fuel)
    · have hnext := fun d (hd : d ∈ next :: items) => List.mem_cons_of_mem item hd
      have hplain' := fun d hd => hplain d (hnext d hd)
      have hstops : Stops isSpace
          ([',', ' '].intercalate (itemChars lined depth (next :: items)) ++ [']']) :=
        (stops_items _ (hplain' next List.mem_cons_self) _).1
      obtain ⟨behind, hskip, hbehind, hle⟩ := skip_cut hafter hstops (by simp) hcs
      simp only [List.length_append, List.length_cons] at hfuel
      rw [List.append_assoc, List.cons_append,
        readItems_item (restored_lined (hplain item List.mem_cons_self) depth) (by omega)
          (Text.stops_cons.mpr rfl), skip_of_stops (Text.stops_cons.mpr rfl)]
      change readItems fuel (item :: read) (skip (after ++ cs)) = _
      rw [hskip]
      obtain ⟨fuel, rfl⟩ := @Nat.exists_eq_succ_of_ne_zero fuel (by omega)
      exact ih hplain' (fun d hd => htorn d (hnext d hd)) hbehind
        (fun _ => hopeless_whole (hplain' next List.mem_cons_self) hcs) fuel
        (by rw [List.length_append]; omega)

/-- Behind its key a field goes on with a colon and its value. -/
theorem readFields_key (key : String) (read : Datum.Fields) (cs : List Char) :
    readFields (fuel + 1) read (textChars key ++ cs) =
      match skip cs with
      | ':' :: rest =>
        match readValue fuel (skip rest) with
        | .error e => .error e
        | .ok (value, rest) =>
          match skip rest with
          | ',' :: rest => readFields fuel (Datum.put key value read) (skip rest)
          | '\x7d' :: rest => .ok (.mapping (Datum.put key value read), rest)
          | _ => .error .malformed
      | _ => .error .malformed := by
  rewrite [textChars_append, readFields, readText_textChars]
  rfl

theorem readFields_colon (key : String) (read : Datum.Fields) (cs : List Char) :
    readFields (fuel + 1) read (textChars key ++ ':' :: cs) =
      match readValue fuel (skip cs) with
      | .error e => .error e
      | .ok (value, rest) =>
        match skip rest with
        | ',' :: rest => readFields fuel (Datum.put key value read) (skip rest)
        | '\x7d' :: rest => .ok (.mapping (Datum.put key value read), rest)
        | _ => .error .malformed := by
  rw [readFields_key, skip_of_stops (Text.stops_cons.mpr rfl)]
  rfl

theorem readFields_cut_key {key : String} {read : Datum.Fields} (hcut : Cut part (textChars key))
    (hcs : Foreign cs) : readFields (fuel + 1) read (part ++ cs) = .error .malformed := by
  obtain rfl | ⟨tail, rfl, htail⟩ := cut_cons.mp hcut
  · obtain rfl | ⟨tail, rfl⟩ := hcs.cases <;> rfl
  · have hkey : Hopeless (readText (tail ++ cs) [] (tail ++ cs)) := readText_cut htail hcs
    rw [List.cons_append, readFields]
    cases hread : readText (tail ++ cs) [] (tail ++ cs) with
    | error fault =>
      rw [hread] at hkey
      exact congrArg _ hkey
    | ok found =>
      obtain ⟨found, rest⟩ := found
      rw [hread] at hkey
      dsimp only
      split
      · exact absurd rfl (Hanging.of_skip hkey ‹_›).2.1
      · rfl

/-- After a value a mapping goes on with a comma or ends. -/
theorem readFields_hanging (key : String) (read : Datum.Fields)
    (h : Hopeless (readValue fuel (skip cs))) :
    readFields (fuel + 1) read (textChars key ++ ':' :: cs) = .error .malformed := by
  rw [readFields_colon]
  cases hread : readValue fuel (skip cs) with
  | error fault =>
    rw [hread] at h
    exact congrArg _ h
  | ok found =>
    obtain ⟨value, rest⟩ := found
    rw [hread] at h
    dsimp only
    split
    · exact absurd rfl (Hanging.of_skip h ‹_›).1
    · exact absurd rfl (Hanging.of_skip h ‹_›).2.2.2
    · rfl

/-- A field that was cut off is not read, unless the cut is behind its value. -/
theorem readFields_cut_field {key : String} {value : Datum} {read : Datum.Fields} (hplain : Plain value)
    (htorn : Torn lined depth value)
    (hcut : Cut part (textChars key ++ (':' :: ' ' :: (chars lined depth value ++ back))))
    (hcs : Foreign cs) :
    readFields (fuel + 1) read (part ++ cs) = .error .malformed ∨ ∃ tail, tail ≠ [] ∧ Cut tail back ∧
      part = textChars key ++ (':' :: ' ' :: (chars lined depth value ++ tail)) := by
  obtain hcut | ⟨afterKey, rfl, hafterKey⟩ := cut_append.mp hcut
  · exact .inl (readFields_cut_key hcut hcs)
  obtain rfl | ⟨afterColon, rfl, hafterColon⟩ := cut_cons.mp hafterKey
  · left
    rw [List.append_nil, readFields_key, skip_foreign hcs]
    obtain rfl | ⟨tail, rfl⟩ := hcs.cases <;> rfl
  rw [List.append_assoc, List.cons_append]
  obtain rfl | ⟨tail, rfl, htail⟩ := cut_cons.mp hafterColon
  · left
    refine readFields_hanging key read ?_
    rw [List.nil_append, skip_foreign hcs]
    exact hcs.value fuel
  have hskip : skip (' ' :: tail ++ cs) = tail ++ cs := by
    rw [List.cons_append, skip_space rfl]
    exact skip_of_stops (stops_cut htail (stops_isSpace_chars hplain back) rfl hcs)
  obtain hvalue | ⟨last, rfl, hlast⟩ := cut_append.mp htail
  · left
    refine readFields_hanging key read ?_
    rw [hskip]
    exact htorn tail cs fuel hvalue hcs
  · cases last with
    | nil =>
      left
      refine readFields_hanging key read ?_
      rw [hskip]
      rw [List.append_nil]
      exact hopeless_whole hplain hcs
    | cons d last => exact .inr ⟨d :: last, List.cons_ne_nil d last, hlast, rfl⟩

theorem readFields_cut {field : String × Datum} {fields read : Datum.Fields}
    (hplain : ∀ f ∈ field :: fields, Plain f.2) (htorn : ∀ f ∈ field :: fields, Torn lined depth f.2)
    (hcut : Cut part ([',', ' '].intercalate (fieldChars lined depth (field :: fields)) ++ ['\x7d']))
    (hcs : Foreign cs) (hfuel : (part ++ cs).length < fuel) :
    readFields fuel read (part ++ cs) = .error .malformed := by
  induction fields generalizing field part read fuel with
  | nil =>
    obtain ⟨fuel, rfl⟩ := Nat.exists_eq_succ_of_ne_zero (Nat.ne_zero_of_lt hfuel)
    have htext : [',', ' '].intercalate (fieldChars lined depth [field]) ++ ['\x7d'] =
        textChars field.1 ++ (':' :: ' ' :: (chars lined depth field.2 ++ ['\x7d'])) := by
      simp [fieldChars]
    rw [htext] at hcut
    obtain h | ⟨tail, hne, htail, -⟩ := readFields_cut_field (hplain field List.mem_cons_self)
      (htorn field List.mem_cons_self) hcut hcs
    · exact h
    · obtain rfl | ⟨after, rfl, hnil⟩ := cut_cons.mp htail
      · contradiction
      · exact absurd hnil not_cut_nil
  | cons next fields ih =>
    obtain ⟨fuel, rfl⟩ := Nat.exists_eq_succ_of_ne_zero (Nat.ne_zero_of_lt hfuel)
    have htext : [',', ' '].intercalate (fieldChars lined depth (field :: next :: fields)) ++ ['\x7d'] =
        textChars field.1 ++ (':' :: ' ' :: (chars lined depth field.2 ++ (',' :: ' ' ::
          ([',', ' '].intercalate (fieldChars lined depth (next :: fields)) ++ ['\x7d'])))) := by
      simp [fieldChars_cons, fieldText]
    rw [htext] at hcut
    obtain h | ⟨tail, hne, htail, rfl⟩ := readFields_cut_field (hplain field List.mem_cons_self)
      (htorn field List.mem_cons_self) hcut hcs
    · exact h
    obtain rfl | ⟨after, rfl, hafter⟩ := cut_cons.mp htail
    · contradiction
    have hnext := fun f (hf : f ∈ next :: fields) => List.mem_cons_of_mem field hf
    obtain ⟨behind, hskip, hbehind, hle⟩ := skip_cut hafter
      (stops_fields [',', ' '] next fields ['\x7d'] rfl) (by simp) hcs
    simp only [List.length_append, List.length_cons] at hfuel
    have hvalue := restored_lined (hplain field List.mem_cons_self) depth fuel (',' :: (after ++ cs))
      (by omega) (Text.stops_cons.mpr rfl)
    simp only [List.append_assoc, List.cons_append]
    rw [readFields_colon, skip_space rfl,
      skip_of_stops (stops_isSpace_chars (hplain field List.mem_cons_self) _), hvalue]
    dsimp only
    rw [skip_of_stops (Text.stops_cons.mpr rfl)]
    change readFields fuel _ (skip (after ++ cs)) = _
    rw [hskip]
    exact ih (fun f hf => hplain f (hnext f hf)) (fun f hf => htorn f (hnext f hf)) hbehind
      (by rw [List.length_append]; omega)

theorem readItems_foreign {read : List Datum} (hcs : Foreign cs) :
    readItems fuel read cs = .error .malformed := by
  cases fuel with
  | zero => rfl
  | succ fuel => exact readItems_hanging (hcs.value fuel)

theorem readFields_foreign {read : Datum.Fields} (hcs : Foreign cs) :
    readFields fuel read cs = .error .malformed := by
  cases fuel with
  | zero => rfl
  | succ fuel => obtain rfl | ⟨tail, rfl⟩ := hcs.cases <;> rfl

theorem cut_bracketed {left right : Char} {parts : List (List Char)}
    (hcut : Cut part (bracketed .line left right parts)) (hne : part ≠ []) :
    ∃ tail, part = left :: tail ∧ Cut tail ([',', ' '].intercalate parts ++ [right]) := by
  have hchars : bracketed .line left right parts =
      left :: ([',', ' '].intercalate parts ++ [right]) := by
    cases parts <;> simp [bracketed, Style.line]
  rw [hchars] at hcut
  obtain rfl | h := cut_cons.mp hcut
  · contradiction
  · exact h

/-- Nothing is read from a list that was cut off. -/
theorem readValue_cut_list {items : List Datum} (hplain : ∀ d ∈ items, Plain d)
    (htorn : ∀ d ∈ items, Torn lined (depth + 1) d) (hcut : Cut part (chars lined depth (.list items)))
    (hne : part ≠ []) (hcs : Foreign cs) : readValue fuel (part ++ cs) = .error .malformed := by
  rw [chars] at hcut
  obtain ⟨tail, rfl, htail⟩ := cut_bracketed hcut hne
  cases items with
  | nil =>
    obtain rfl | ⟨after, rfl, hnil⟩ := cut_cons.mp htail
    · apply (runsOut_add fuel 1 _).eq_malformed
      rw [List.singleton_append, readValue_list] <;> rw [skip_foreign hcs]
      · exact readItems_foreign hcs
      · exact hcs.stops rfl
    · exact absurd hnil not_cut_nil
  | cons item items =>
    have hstops : Stops isSpace
          ([',', ' '].intercalate (itemChars lined (depth + 1) (item :: items)) ++ [']']) ∧
        Stops (· == ']')
          ([',', ' '].intercalate (itemChars lined (depth + 1) (item :: items)) ++ [']']) :=
      stops_items [',', ' '] (hplain item List.mem_cons_self) [']']
    have hskip : skip (tail ++ cs) = tail ++ cs := skip_of_stops (stops_cut htail hstops.1 rfl hcs)
    apply (runsOut_add fuel ((tail ++ cs).length + 2) _).eq_malformed
    rw [List.cons_append, ← Nat.add_assoc, readValue_list] <;> rw [hskip]
    · exact readItems_cut hplain htorn htail hcs (by omega)
    · exact stops_cut htail hstops.2 rfl hcs

/-- Nothing is read from a mapping that was cut off. -/
theorem readValue_cut_mapping {fields : Datum.Fields} (hplain : ∀ f ∈ fields, Plain f.2)
    (htorn : ∀ f ∈ fields, Torn lined (depth + 1) f.2)
    (hcut : Cut part (chars lined depth (.mapping fields))) (hne : part ≠ []) (hcs : Foreign cs) :
    readValue fuel (part ++ cs) = .error .malformed := by
  rw [chars] at hcut
  obtain ⟨tail, rfl, htail⟩ := cut_bracketed hcut hne
  cases fields with
  | nil =>
    obtain rfl | ⟨after, rfl, hnil⟩ := cut_cons.mp htail
    · apply (runsOut_add fuel 1 _).eq_malformed
      rw [List.singleton_append, readValue_mapping] <;> rw [skip_foreign hcs]
      · exact readFields_foreign hcs
      · exact hcs.stops rfl
    · exact absurd hnil not_cut_nil
  | cons field fields =>
    have hstops : ∀ p : Char → Bool, p '"' = false → Stops p
        ([',', ' '].intercalate (fieldChars lined (depth + 1) (field :: fields)) ++ ['\x7d']) :=
      fun _ => stops_fields [',', ' '] field fields ['\x7d']
    have hskip : skip (tail ++ cs) = tail ++ cs :=
      skip_of_stops (stops_cut htail (hstops isSpace rfl) rfl hcs)
    apply (runsOut_add fuel ((tail ++ cs).length + 2) _).eq_malformed
    rw [List.cons_append, ← Nat.add_assoc, readValue_mapping] <;> rw [hskip]
    · exact readFields_cut hplain htorn htail hcs (by omega)
    · exact stops_cut htail (hstops (· == '\x7d') rfl) rfl hcs

end Brackets

/-- Wherever a datum was cut off, a reader gets nowhere with what is left of it. -/
theorem torn {d : Datum} (h : Plain d) (depth : Nat) : Torn lined depth d := by
  induction h generalizing depth with
  | null => exact torn_null
  | bool value => exact torn_bool value
  | int hwritable => exact torn_int hwritable
  | float value => exact torn_float value
  | text value => exact torn_text value
  | list hplain ih =>
    refine torn_of_ne_nil fun part cs fuel hcut hne hcs => ?_
    rw [readValue_cut_list hplain (fun d hd => ih d hd (depth + 1)) hcut hne hcs]
    rfl
  | mapping _ hplain ih =>
    refine torn_of_ne_nil fun part cs fuel hcut hne hcs => ?_
    rw [readValue_cut_mapping hplain (fun f hf => ih f hf (depth + 1)) hcut hne hcs]
    rfl

/-! ## Mappings on one line -/

section Mappings

variable {fields : Datum.Fields} {cs : List Char}

/-- Whether a text starts with a mapping whose first key neither is empty nor starts with a character that
goes on in a list or a mapping: a reader that takes its opening mark for a closing one does not get on. -/
def Opens (cs : List Char) : Prop :=
  ∃ c rest, cs = '\x7b' :: '"' :: c :: rest ∧ isSpace c = false ∧ c ∉ [',', ':', ']', '\x7d']

theorem cut_or_eq_of_isPrefix (h : part <+: rest) : Cut part rest ∨ part = rest := by
  obtain ⟨tail, rfl⟩ := h
  cases tail with
  | nil => exact .inr (List.append_nil part).symm
  | cons c tail => exact .inl ⟨c, tail, rfl⟩

theorem readText_opens {budget read whole : List Char} (hopens : Opens whole) (hpart : part <+: whole)
    (hne : part ≠ []) (hcs : Foreign cs) : Hopeless (readText budget read (part ++ cs)) := by
  obtain ⟨c, rest, rfl, hspace, hc⟩ := hopens
  rw [List.prefix_cons_iff] at hpart
  obtain rfl | ⟨mark, rfl, hmark⟩ := hpart
  · contradiction
  apply readText_budget
  rintro b budget rfl
  rw [List.cons_append, readText_cons, if_neg (by decide), if_neg (by decide), if_neg (by decide)]
  rw [List.prefix_cons_iff] at hmark
  obtain rfl | ⟨key, rfl, hkey⟩ := hmark
  · exact hcs.text budget _
  apply readText_budget
  rintro b budget rfl
  rw [List.cons_append, readText_cons, if_pos (by decide)]
  rw [List.prefix_cons_iff] at hkey
  obtain rfl | ⟨tail, rfl, -⟩ := hkey
  · exact hcs.hanging
  · exact hanging_cons hspace hc

/-- What is left of a mapping may stand behind a cut, with what may stand there itself behind it. -/
theorem Foreign.append (hplain : Plain (.mapping fields)) (hopens : Opens (chars lined 0 (.mapping fields)))
    (hpart : part <+: chars lined 0 (.mapping fields)) (hcs : Foreign cs) : Foreign (part ++ cs) := by
  by_cases hne : part = []
  · rwa [hne]
  refine ⟨?_, fun fuel => ?_, fun budget read => readText_opens hopens hpart hne hcs⟩
  · obtain ⟨c, rest, hchars, -⟩ := hopens
    rw [hchars, List.prefix_cons_iff] at hpart
    obtain rfl | ⟨tail, rfl, -⟩ := hpart
    · contradiction
    · rintro d ⟨⟩
      rfl
  · obtain hcut | rfl := cut_or_eq_of_isPrefix hpart
    · exact torn hplain 0 part cs fuel hcut hcs
    · exact hopeless_whole hplain hcs

/-- From what is left of a mapping nothing is read, nor from a mapping with anything behind it. -/
theorem parse_isPrefix (hplain : Plain (.mapping fields)) (hpart : part <+: chars lined 0 (.mapping fields))
    (hne : part ≠ []) (hcs : Foreign cs) (hmore : part = chars lined 0 (.mapping fields) → cs ≠ []) :
    parse (String.ofList (part ++ cs)) = .error .malformed := by
  have hstart : skip (part ++ cs) = part ++ cs := by
    apply skip_of_stops
    obtain ⟨tail, htail⟩ := hpart
    have hwhole : Stops isSpace (part ++ tail) := by
      rw [htail, ← List.append_nil (chars _ _ _)]
      exact stops_isSpace_chars hplain []
    obtain ⟨c, part, rfl⟩ := List.exists_cons_of_ne_nil hne
    exact Text.stops_cons.mpr (Text.stops_cons.mp hwhole)
  unfold parse
  rw [String.toList_ofList, hstart]
  dsimp only
  obtain hcut | rfl := cut_or_eq_of_isPrefix hpart
  · cases hplain with
    | mapping hkeys hfields =>
      rw [readValue_cut_mapping hfields (fun f hf => torn (hfields f hf) 1) hcut hne hcs]
  · rw [restored_lined hplain 0 _ cs (by simp; omega) (hcs.stops rfl)]
    dsimp only
    rw [skip_foreign hcs, if_neg]
    simpa using hmore rfl

end Mappings

end Spreadsheet.Json
