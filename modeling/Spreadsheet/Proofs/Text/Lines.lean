import Spreadsheet.Text.Blank

/-! The lines of a text. A line is kept unless it is blank. -/
namespace Spreadsheet.Text

variable {separates : Char → Bool} {cs rest : List Char}

theorem pieces_eq_splitOnP (cs : List Char) : pieces separates cs = cs.splitOnP separates := by
  induction cs with
  | nil => rfl
  | cons c cs ih =>
    obtain ⟨piece, parts, hparts⟩ := List.exists_cons_of_ne_nil (List.splitOnP_ne_nil separates cs)
    change consPiece separates c (pieces separates cs) = _
    rw [ih, List.splitOnP_cons_eq_if_modifyHead, hparts]
    rfl

theorem lines_append (hcs : ∀ c ∈ cs, isBreak c = false) (hsome : ∃ c ∈ cs, isBlank c = false) :
    lines (cs ++ '\n' :: rest) = cs :: lines rest := by
  unfold lines
  rw [pieces_eq_splitOnP, pieces_eq_splitOnP,
    List.splitOnP_append_cons_of_forall_mem hcs '\n' rfl, List.filter_cons_of_pos]
  simpa using hsome

theorem lines_eq_singleton (hcs : ∀ c ∈ cs, isBreak c = false) (hsome : ∃ c ∈ cs, isBlank c = false) :
    lines cs = [cs] := by
  unfold lines
  rw [pieces_eq_splitOnP, List.splitOnP_eq_singleton hcs, List.filter_cons_of_pos, List.filter_nil]
  simpa using hsome

end Spreadsheet.Text
