/-
# CobolAtlas.Proofs.Source.Line -- which columns a line is read from

A line with six bytes that are digits or blanks, and then an indicator that allows it, is in fixed
format (`ofLine_fixed`); a line that is not is in free format (`ofLine_free`).  The program text of a fixed
line ends at column 72 (`programArea_append`) or with the line (`programArea_eq_self`).  Without the mark
`*>` nothing of the program text is comment (`beforeComment_eq_self`), also where two texts meet
(`beforeComment_append`).
-/
import CobolAtlas.Source.Line

namespace CobolAtlas.Source

set_option autoImplicit false

open Text

deriving instance DecidableEq for Layout

theorem ofLine_fixed {sequence : Text} {indicator : Char} (rest : Text) (six : byteLength sequence = 6)
    (fixed : isFixed sequence indicator = true) :
    Layout.ofLine (sequence ++ indicator :: rest) = .fixed sequence indicator rest := by
  have cut : splitAtByte? 6 (sequence ++ indicator :: rest) = some (sequence, indicator :: rest) := by
    rw [← six, splitAtByte?_append]
  simp [Layout.ofLine, cut, fixed]

theorem ofLine_free {line : Text}
    (free : ∀ sequence indicator rest, line = sequence ++ indicator :: rest → byteLength sequence = 6 →
      isFixed sequence indicator = false) : Layout.ofLine line = .free line := by
  unfold Layout.ofLine
  split
  · rename_i sequence indicator rest cut
    obtain ⟨split, six⟩ := append_of_splitAtByte? cut
    rw [if_neg (by simp [free sequence indicator rest split six])]
  · rfl

theorem splitAtByte?_eq_none {n : Nat} {t : Text} (short : byteLength t < n) : splitAtByte? n t = none := by
  cases cut : splitAtByte? n t with
  | none => rfl
  | some parts =>
    obtain ⟨rfl, length⟩ := append_of_splitAtByte? (a := parts.1) (b := parts.2) cut
    simp only [byteLength_append] at short
    omega

/-- What does not reach past column 72 is kept. -/
theorem programArea_eq_self {indicator : Char} {rest : Text} (narrow : indicator.utf8Size = 1)
    (short : byteLength rest ≤ 65) : programArea indicator rest = rest := by
  rw [programArea, if_pos narrow]
  rcases Nat.lt_or_eq_of_le short with less | full
  · rw [splitAtByte?_eq_none less]
  · have cut := splitAtByte?_append rest []
    rw [List.append_nil, full] at cut
    rw [cut]

/-- What follows column 72 is cut off. -/
theorem programArea_append {indicator : Char} {columns : Text} (narrow : indicator.utf8Size = 1)
    (full : byteLength columns = 65) (identification : Text) :
    programArea indicator (columns ++ identification) = columns := by
  rw [programArea, if_pos narrow, ← full, splitAtByte?_append]

theorem beforeComment_cons (c : Char) (t : Text) :
    beforeComment (c :: t) = if c = '*' ∧ t.head? = some '>' then [] else c :: beforeComment t := by
  split
  · rename_i mark
    obtain ⟨rfl, next⟩ := mark
    obtain ⟨rest, rfl⟩ := List.head?_eq_some_iff.1 next
    rw [beforeComment]
  · rename_i noMark
    rw [beforeComment]
    exact fun rest star next => noMark ⟨star, by rw [next]; rfl⟩

theorem mem_of_mem_beforeComment {t : Text} {c : Char} (member : c ∈ beforeComment t) : c ∈ t := by
  induction t with
  | nil => cases member
  | cons d t ih =>
    rw [beforeComment_cons] at member
    split at member
    · cases member
    · rcases List.mem_cons.1 member with rfl | later
      · exact List.mem_cons_self
      · exact List.mem_cons_of_mem d (ih later)

/-- What begins with blanks holds no comment mark there. -/
theorem beforeComment_blanks_append (n : Nat) (t : Text) :
    beforeComment (List.replicate n ' ' ++ t) = List.replicate n ' ' ++ beforeComment t := by
  induction n with
  | zero => rfl
  | succ n ih =>
    rw [List.replicate_succ, List.cons_append, beforeComment_cons, if_neg (by simp), ih, List.cons_append]

/-- A comment that has begun goes on to the end. -/
theorem beforeComment_append_of_mark {t : Text} (mark : "*>".toList <:+: t) (u : Text) :
    beforeComment (t ++ u) = beforeComment t := by
  induction t with
  | nil => cases List.infix_nil.1 mark
  | cons c t ih =>
    rw [List.cons_append, beforeComment_cons, beforeComment_cons]
    rcases List.infix_cons_iff.1 mark with ⟨rest, here⟩ | later
    · obtain ⟨rfl, rfl⟩ := List.cons.inj here
      rfl
    · rw [ih later]
      cases t with
      | nil => cases List.infix_nil.1 later
      | cons d t => rfl

theorem beforeComment_eq_self {t : Text} (noComment : ¬ "*>".toList <:+: t) : beforeComment t = t := by
  induction t with
  | nil => rfl
  | cons c t ih =>
    have rest : beforeComment t = t := ih fun inside => noComment (inside.trans (List.infix_cons List.infix_rfl))
    unfold beforeComment
    split
    · rename_i same
      exact absurd (same ▸ (List.prefix_append ['*', '>'] _).isInfix) noComment
    · rename_i same
      obtain ⟨rfl, rfl⟩ := List.cons.inj same
      rw [rest]
    · rename_i same
      cases same

/-- A text without comment stays so before another one, unless the two make the mark where they meet. -/
theorem beforeComment_append {t u : Text} (whole : beforeComment t = t)
    (meet : t.getLast? = some '*' → u.head? ≠ some '>') :
    beforeComment (t ++ u) = t ++ beforeComment u := by
  induction t with
  | nil => rfl
  | cons c t ih =>
    have noMark : ∀ rest, c :: t ≠ '*' :: '>' :: rest := by
      intro rest same
      rw [same] at whole
      cases whole
    have step : beforeComment (c :: t) = c :: beforeComment t := by
      rw [beforeComment]
      exact fun rest star mark => noMark rest (by rw [star, mark])
    have whole' : beforeComment t = t := (List.cons.inj (step.symm.trans whole)).2
    have step' : beforeComment (c :: (t ++ u)) = c :: beforeComment (t ++ u) := by
      rw [beforeComment]
      intro rest star mark
      cases t with
      | nil => exact meet (by rw [star]; rfl) (by simp only [List.nil_append] at mark; rw [mark]; rfl)
      | cons d t =>
        obtain ⟨rfl, -⟩ := List.cons.inj mark
        exact noMark t (by rw [star])
    rw [List.cons_append, step', ih whole' fun last => meet ?_, List.cons_append]
    cases t with
    | nil => cases last
    | cons d t => rwa [List.getLast?_cons_cons]

end CobolAtlas.Source
