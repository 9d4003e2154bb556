import Mathlib.Algebra.Group.Defs

namespace ConfigMerge

abbrev Text := List Char

@[ext]
structure MergeStats where
  carried : Nat := 0
  newKeys : Nat := 0
  dropped : Nat := 0
  deriving DecidableEq, Repr

-- The counters only grow, so that what is counted on the way can be added up.
instance : AddCommMonoid MergeStats where
  zero           := {}
  add a b        := ⟨a.carried + b.carried, a.newKeys + b.newKeys, a.dropped + b.dropped⟩
  nsmul n a      := ⟨n * a.carried, n * a.newKeys, n * a.dropped⟩
  add_assoc _ _ _ := MergeStats.ext (Nat.add_assoc ..) (Nat.add_assoc ..) (Nat.add_assoc ..)
  zero_add _     := MergeStats.ext (Nat.zero_add _) (Nat.zero_add _) (Nat.zero_add _)
  add_zero _     := rfl
  add_comm _ _   := MergeStats.ext (Nat.add_comm ..) (Nat.add_comm ..) (Nat.add_comm ..)
  nsmul_zero _   := MergeStats.ext (Nat.zero_mul _) (Nat.zero_mul _) (Nat.zero_mul _)
  nsmul_succ _ _ := MergeStats.ext (Nat.succ_mul ..) (Nat.succ_mul ..) (Nat.succ_mul ..)

structure MergeResult where
  path          : Text
  mergedContent : Text
  stats         : MergeStats := {}
  parseFormat   : String
  warning       : String := ""
  skipped       : Bool := false

end ConfigMerge
