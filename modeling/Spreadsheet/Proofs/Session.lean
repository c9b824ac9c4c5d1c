import Spreadsheet.Proofs.Address.Spelling
import Spreadsheet.Proofs.Data.Json
import Spreadsheet.Session

/-! Session files read back. The text of a session gives the cells that were saved in it, in their order
and with every character of their contents. -/
namespace Spreadsheet.Session

variable {cells : List (Address × String)}

/-- The cells of a session as the fields of its text. -/
def fields (cells : List (Address × String)) : Datum.Fields :=
  cells.map fun (a, content) => (a.text, .text content)

theorem nodup_fields (hspellable : ∀ item ∈ cells, item.1.Spellable)
    (hdistinct : (cells.map Prod.fst).Nodup) : ((fields cells).map Prod.fst).Nodup := by
  unfold fields
  rw [List.map_map]
  rw [List.Nodup, List.pairwise_map] at hdistinct ⊢
  refine hdistinct.imp_of_mem fun {item later} hitem hlater hne hsame => hne ?_
  exact (hspellable item hitem).eq_of_text (hspellable later hlater) hsame

theorem mapM_cellOf (cells : List (Address × String)) :
    (fields cells).mapM cellOf = .ok (cells.map fun (a, content) => (a.text, content)) := by
  induction cells with
  | nil => rfl
  | cons item cells ih =>
    unfold fields at ih ⊢
    rw [List.map_cons, List.mapM_cons, ih]
    rfl

/-- What is saved in a session is read from it. -/
theorem read_text (hspellable : ∀ item ∈ cells, item.1.Spellable)
    (hdistinct : (cells.map Prod.fst).Nodup) :
    read (text cells) = .ok (cells.map fun (a, content) => (a.text, content)) := by
  have hfields : ∀ field ∈ fields cells, Json.Plain field.2 := by
    intro field hfield
    obtain ⟨item, -, rfl⟩ := List.mem_map.mp hfield
    exact .text item.2
  have hone : Number.natOfDigits ['1'] = .ok 1 := rfl
  have hplain : Json.Plain (.mapping [("version", .int version), ("cells", .mapping (fields cells))]) := by
    refine .mapping (by simp) ?_
    simp only [List.mem_cons, List.not_mem_nil, or_false, forall_eq_or_imp, forall_eq]
    exact ⟨.int (Number.isWritable_of_natOfDigits hone),
      .mapping (nodup_fields hspellable hdistinct) hfields⟩
  have hparse : Json.parse (text cells) =
      .ok (.mapping [("version", .int version), ("cells", .mapping (fields cells))]) :=
    Json.parse_block hplain (by decide)
  unfold read
  rw [hparse]
  exact mapM_cellOf cells

end Spreadsheet.Session
