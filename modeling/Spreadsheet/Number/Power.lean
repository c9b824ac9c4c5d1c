/-! Powers of the two bases in which numbers are kept and written. -/
namespace Spreadsheet.Number

def twoTo (k : Nat) : Nat := Nat.pow 2 k

def tenTo (k : Nat) : Nat := Nat.pow 10 k

theorem twoTo_succ (k : Nat) : twoTo (k + 1) = twoTo k * 2 := rfl

theorem tenTo_succ (k : Nat) : tenTo (k + 1) = tenTo k * 10 := rfl

theorem twoTo_add (j k : Nat) : twoTo (j + k) = twoTo j * twoTo k := Nat.pow_add 2 j k

theorem tenTo_add (j k : Nat) : tenTo (j + k) = tenTo j * tenTo k := Nat.pow_add 10 j k

theorem twoTo_pos (k : Nat) : 0 < twoTo k := Nat.pow_pos (Nat.succ_pos 1)

theorem tenTo_pos (k : Nat) : 0 < tenTo k := Nat.pow_pos (Nat.succ_pos 9)

end Spreadsheet.Number
