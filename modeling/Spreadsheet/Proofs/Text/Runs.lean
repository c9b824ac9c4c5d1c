import Spreadsheet.Text.Blank
import Spreadsheet.Text.Case

/-! Runs of characters of one class, and texts that trimming and upper case leave alone. -/
namespace Spreadsheet.Text

/-! What holds of all characters of a text is decided by these characters, and not by trying every
character there is. -/

instance (priority := high) decidableForallMemChars (p : Char → Prop) [DecidablePred p]
    (cs : List Char) : Decidable (∀ c ∈ cs, p c) := List.decidableBAll p cs

instance (priority := high) decidableForallMemChar? (p : Char → Prop) [DecidablePred p]
    (c? : Option Char) : Decidable (∀ c ∈ c?, p c) := Option.decidableForallMem c?

/-- A run of characters of a class ends before this text. -/
def Stops (p : Char → Bool) (rest : List Char) : Prop := ∀ c ∈ rest.head?, p c = false

theorem stops_nil (p : Char → Bool) : Stops p [] := fun _ h => by cases h

theorem stops_cons {p : Char → Bool} {c : Char} {rest : List Char} :
    Stops p (c :: rest) ↔ p c = false := by
  simp [Stops]

theorem stops_of_forall {p : Char → Bool} {cs : List Char} (h : ∀ c ∈ cs, p c = false) :
    Stops p cs := fun c hc => h c (List.mem_of_mem_head? hc)

theorem takeWhile_of_stops {p : Char → Bool} {rest : List Char} (h : Stops p rest) :
    rest.takeWhile p = [] := by
  cases rest with
  | nil => rfl
  | cons c rest =>
    rw [List.takeWhile_cons_of_neg]
    rw [stops_cons.mp h]
    exact Bool.false_ne_true

theorem dropWhile_of_stops {p : Char → Bool} {rest : List Char} (h : Stops p rest) :
    rest.dropWhile p = rest := by
  cases rest with
  | nil => rfl
  | cons c rest =>
    rw [List.dropWhile_cons_of_neg]
    rw [stops_cons.mp h]
    exact Bool.false_ne_true

theorem takeWhile_append_of_stops {p : Char → Bool} {cs rest : List Char} (hcs : ∀ c ∈ cs, p c)
    (h : Stops p rest) : (cs ++ rest).takeWhile p = cs := by
  rw [List.takeWhile_append_of_pos hcs, takeWhile_of_stops h, List.append_nil]

theorem dropWhile_append_of_stops {p : Char → Bool} {cs rest : List Char} (hcs : ∀ c ∈ cs, p c)
    (h : Stops p rest) : (cs ++ rest).dropWhile p = rest := by
  rw [List.dropWhile_append_of_pos hcs, dropWhile_of_stops h]

theorem reverse_trim (cs : List Char) :
    (trim cs).reverse = (cs.dropWhile isBlank).reverse.dropWhile isBlank := by
  unfold trim
  rw [List.reverse_reverse]

theorem trim_prefix (cs : List Char) : trim cs <+: cs.dropWhile isBlank := by
  rw [← List.reverse_suffix, reverse_trim]
  exact List.dropWhile_suffix isBlank

/-- What trimming leaves starts with no blank. -/
theorem stops_trim (cs : List Char) : Stops isBlank (trim cs) := by
  intro c hc
  obtain ⟨rest, hrest⟩ := trim_prefix cs
  have hhead := List.head?_dropWhile_not isBlank cs
  rw [← hrest, List.head?_append, Option.mem_def.mp hc] at hhead
  exact hhead

/-- What trimming leaves ends with no blank. -/
theorem stops_reverse_trim (cs : List Char) : Stops isBlank (trim cs).reverse := by
  intro c hc
  have hhead := List.head?_dropWhile_not isBlank (cs.dropWhile isBlank).reverse
  rw [← reverse_trim, Option.mem_def.mp hc] at hhead
  exact hhead

/-- Trimming leaves a text alone that has no blank at either end. -/
theorem trim_eq_self {cs : List Char} (hfirst : Stops isBlank cs)
    (hlast : Stops isBlank cs.reverse) : trim cs = cs := by
  unfold trim
  rw [dropWhile_of_stops hfirst, dropWhile_of_stops hlast, List.reverse_reverse]

theorem trim_eq_self_of_forall {cs : List Char} (h : ∀ c ∈ cs, isBlank c = false) : trim cs = cs :=
  trim_eq_self (stops_of_forall h) (stops_of_forall fun c hc => h c (List.mem_reverse.mp hc))

/-- Upper case leaves a text alone whose characters are their own upper case. -/
theorem upper_eq_self {cs : List Char} (h : ∀ c ∈ cs, upperChar c = [c]) : upper cs = cs := by
  unfold upper
  induction cs with
  | nil => rfl
  | cons c cs ih =>
    rw [List.flatMap_cons, h c List.mem_cons_self, ih fun d hd => h d (List.mem_cons_of_mem c hd),
      List.singleton_append]

/-- ASCII characters other than lower-case letters are their own upper case. -/
theorem upperChar_eq_self {c : Char} (hascii : c.toNat < 0x80)
    (hlower : ¬(0x61 ≤ c.toNat ∧ c.toNat ≤ 0x7A)) : upperChar c = [c] := by
  unfold upperChar
  rw [if_pos hascii]
  unfold Char.toUpper
  rw [dif_neg]
  exact fun h => hlower h

end Spreadsheet.Text
