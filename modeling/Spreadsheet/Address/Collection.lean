import Spreadsheet.Address
import Std.Data.ExtTreeMap
import Std.Data.ExtTreeSet

/-! Sets of addresses and maps from addresses, both in ascending order. -/
namespace Spreadsheet

abbrev AddressSet := Std.ExtTreeSet Address

abbrev AddressMap (α : Type) := Std.ExtTreeMap Address α

theorem size_erase_lt_of_mem {α : Type} {m : AddressMap α} {a : Address} (h : a ∈ m) :
    (m.erase a).size < m.size := by
  have nonempty : m.size ≠ 0 := fun zero => by
    rw [Std.ExtTreeMap.eq_empty_iff_size_eq_zero.mpr zero] at h
    simp at h
  rw [Std.ExtTreeMap.size_erase, if_pos (Std.ExtTreeMap.mem_iff_contains.mp h)]
  omega

end Spreadsheet
