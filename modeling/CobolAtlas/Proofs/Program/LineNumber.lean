/-
# CobolAtlas.Proofs.Program.LineNumber -- the later of two lines and the last of several

`max l m` is the later of two lines, and `lines.foldl max l` the last of `l` and the lines: none of them is later
(`le_foldl_max`, `le_foldl_max_of_mem`), and it is one of them (`foldl_max_mem`).
-/
import CobolAtlas.Program.Basic

namespace CobolAtlas.LineNumber

set_option autoImplicit false

variable {l m bound : LineNumber} {lines : List LineNumber}

/-! ## Two lines -/

theorem max_eq (l m : LineNumber) : max l m = if l ≤ m then m else l := rfl

theorem max_le (left : l ≤ bound) (right : m ≤ bound) : max l m ≤ bound := by
  rw [max_eq]
  split <;> assumption

theorem left_le_max (l m : LineNumber) : l ≤ max l m := by
  rw [max_eq]
  split
  · assumption
  · exact UInt32.le_refl l

theorem right_le_max (l m : LineNumber) : m ≤ max l m := by
  rw [max_eq]
  split
  · exact UInt32.le_refl m
  · rename_i above
    exact UInt32.le_of_lt (UInt32.not_le.1 above)

theorem max_self (l : LineNumber) : max l l = l := by rw [max_eq, if_pos (UInt32.le_refl l)]

theorem max_assoc (l m n : LineNumber) : max (max l m) n = max l (max m n) := by
  have middle : m ≤ max l (max m n) := UInt32.le_trans (left_le_max m n) (right_le_max l _)
  have last : n ≤ max l (max m n) := UInt32.le_trans (right_le_max m n) (right_le_max l _)
  have first : l ≤ max (max l m) n := UInt32.le_trans (left_le_max l m) (left_le_max _ n)
  have middle' : m ≤ max (max l m) n := UInt32.le_trans (right_le_max l m) (left_le_max _ n)
  exact UInt32.le_antisymm (max_le (max_le (left_le_max l _) middle) last)
    (max_le first (max_le middle' (right_le_max _ n)))

theorem max_max_self (l m : LineNumber) : max (max l m) m = max l m := by rw [max_assoc, max_self]

theorem one_le_of_lt (below : bound < l) : 1 ≤ l := by
  rw [UInt32.le_iff_toNat_le]
  have := UInt32.lt_iff_toNat_lt.1 below
  have one : (1 : LineNumber).toNat = 1 := rfl
  omega

/-! ## Several lines -/

theorem le_foldl_max (lines : List LineNumber) (l : LineNumber) : l ≤ lines.foldl max l := by
  induction lines generalizing l with
  | nil => exact UInt32.le_refl l
  | cons m lines ih => exact UInt32.le_trans (left_le_max l m) (ih (max l m))

theorem le_foldl_max_of_mem (member : m ∈ lines) (l : LineNumber) : m ≤ lines.foldl max l := by
  induction lines generalizing l with
  | nil => exact absurd member List.not_mem_nil
  | cons n lines ih =>
    rcases List.mem_cons.1 member with rfl | later
    · exact UInt32.le_trans (right_le_max l m) (le_foldl_max lines (max l m))
    · exact ih later (max l n)

theorem foldl_max_mem (lines : List LineNumber) (l : LineNumber) : lines.foldl max l ∈ l :: lines := by
  induction lines generalizing l with
  | nil => exact List.mem_singleton_self l
  | cons m lines ih =>
    have either : max l m = m ∨ max l m = l := by
      rw [max_eq]
      split
      · exact .inl rfl
      · exact .inr rfl
    rcases List.mem_cons.1 (ih (max l m)) with first | later
    · rw [List.foldl_cons, first]
      rcases either with right | left
      · rw [right]
        exact List.mem_cons_of_mem l List.mem_cons_self
      · rw [left]
        exact List.mem_cons_self
    · exact List.mem_cons_of_mem l (List.mem_cons_of_mem m later)

theorem max_foldl_max (lines : List LineNumber) (l : LineNumber) : max l (lines.foldl max l) = lines.foldl max l := by
  rw [max_eq, if_pos (le_foldl_max lines l)]

end CobolAtlas.LineNumber
