/-
# CobolAtlas.Proofs.Skeleton.Layout -- lines on the page

A construct can be put on its line in many ways, and each line of a file may have its own `Margin`: up
to six blanks in free format, or a sequence area and an indicator in fixed format, with or without an
identification past column 72.  `code?_place` says that the program text of the line is the construct's
text again.

What it takes is little: the text starts with a letter or digit, ends with one, with a period or with a
quote, and has no line end and no mark of a comment (`IsCode`).  The conditions on the margin
(`Margin.Holds`) keep a free line from looking fixed and a fixed line within its columns.
-/
import CobolAtlas.Proofs.Skeleton.Basic
import CobolAtlas.Proofs.Source.Line
import CobolAtlas.Proofs.Source.Masking
import CobolAtlas.Proofs.Text.Ends
import CobolAtlas.Proofs.Text.Word
import CobolAtlas.Source.Scan

namespace CobolAtlas

set_option autoImplicit false

namespace Skeleton

/-! ## Margins -/

/-- How a text is put on a line. -/
inductive Margin where
  /-- Blanks before the text. -/
  | free (indent : Nat)
  /-- A sequence area, a blank indicator and blanks before the text.  An identification starts in
  column 73. -/
  | fixed (sequence : Text) (indent : Nat) (identification : Option Text)

/-- The text from column 8 to column 72. -/
def area (indent : Nat) (code : Text) : Text :=
  List.replicate indent ' ' ++ code ++ List.replicate (65 - (indent + Text.byteLength code)) ' '

/-- The line that holds the text. -/
def Margin.place (code : Text) : Margin → Text
  | .free indent => List.replicate indent ' ' ++ code
  | .fixed sequence indent none => sequence ++ ' ' :: (List.replicate indent ' ' ++ code)
  | .fixed sequence indent (some identification) => sequence ++ ' ' :: (area indent code ++ identification)

/-- Can the text be put on a line in this way? -/
def Margin.Holds (code : Text) : Margin → Prop
  | .free indent => indent ≤ 6 ∧ (indent = 0 → (code.take 6).all Char.isDigit = false)
  | .fixed sequence indent identification =>
      sequence.length = 6 ∧ (sequence.all Char.isDigit = true ∨ sequence.all (· == ' ') = true) ∧
      indent + Text.byteLength code ≤ 65 ∧
      ∀ t ∈ identification, '\n' ∉ t ∧ '\r' ∉ t

/-! ## A text on a line of its own -/

/-- The characters that may end a line. -/
def isFinal (c : Char) : Bool := c.isAlphanum || c == '.' || Name.isQuote c

/-- What is asked of a text that is to be found again on its line. -/
structure IsCode (code : Text) : Prop where
  starts : ∃ c rest, code = c :: rest ∧ c.isAlphanum = true
  ends : code.getLast?.any isFinal = true
  oneLine : '\n' ∉ code
  noComment : Source.beforeComment code = code

variable {code : Text}

theorem IsCode.nonempty (is : IsCode code) : code ≠ [] := by
  obtain ⟨c, rest, rfl, -⟩ := is.starts
  exact List.cons_ne_nil c rest

theorem IsCode.head (is : IsCode code) : ∀ c ∈ code.head?, Text.isBlank c = false := by
  obtain ⟨c, rest, rfl, alphanum⟩ := is.starts
  rintro d ⟨⟩
  exact Text.isBlank_of_isAlphanum alphanum

theorem IsCode.last (is : IsCode code) : ∀ c ∈ code.getLast?, Text.isBlank c = false := by
  intro c last
  have final := is.ends
  rw [Option.mem_def.1 last, Option.any_some, isFinal, Bool.or_eq_true, Bool.or_eq_true] at final
  rcases final with (alphanum | period) | quote
  · exact Text.isBlank_of_isAlphanum alphanum
  · rw [beq_iff_eq.1 period]; rfl
  · exact Literal.spares_isBlank c quote

theorem IsCode.getLast?_ne (is : IsCode code) {c : Char} (other : isFinal c = false) :
    code.getLast? ≠ some c := by
  intro last
  have final := is.ends
  rw [last, Option.any_some, other] at final
  cases final

/-- Blanks around a text make no comment of it. -/
theorem IsCode.beforeComment_between (is : IsCode code) (n m : Nat) :
    Source.beforeComment (List.replicate n ' ' ++ code ++ List.replicate m ' ') =
      List.replicate n ' ' ++ code ++ List.replicate m ' ' := by
  have after : Source.beforeComment (code ++ List.replicate m ' ') = code ++ List.replicate m ' ' := by
    have blanks := Source.beforeComment_blanks_append m []
    rw [Source.beforeComment, List.append_nil] at blanks
    rw [Source.beforeComment_append is.noComment (absurd · (is.getLast?_ne (by decide))), blanks]
  rw [List.append_assoc, Source.beforeComment_blanks_append, after]

/-- Program text with blanks around it is the text alone. -/
theorem IsCode.code?_of_codeArea (is : IsCode code) {line : Text} {n m : Nat}
    (found : Source.codeArea line = some (List.replicate n ' ' ++ code ++ List.replicate m ' ')) :
    Source.code? line = some code := by
  have trimmed : Text.trim (List.replicate n ' ' ++ code ++ List.replicate m ' ') = code :=
    Text.trim_append (fun _ => Text.isBlank_of_mem_replicate) (fun _ => Text.isBlank_of_mem_replicate)
      is.nonempty is.head is.last
  simp only [Source.code?, found, Option.bind_some, trimmed]
  rw [if_neg (by simpa using is.nonempty)]

theorem IsCode.trimStart_head? (is : IsCode code) (n : Nat) (rest : Text) :
    ∃ c, (Text.trimStart (List.replicate n ' ' ++ code ++ rest)).head? = some c ∧ c.isAlphanum = true := by
  obtain ⟨c, t, rfl, alphanum⟩ := is.starts
  refine ⟨c, ?_, alphanum⟩
  rw [Text.trimStart, List.append_assoc,
    List.dropWhile_append_of_pos fun _ => Text.isBlank_of_mem_replicate]
  simp [Text.isBlank_of_isAlphanum alphanum]

/-! ## Sequence areas -/

/-- A sequence area has as many columns as characters. -/
theorem byteLength_of_sequence {t : Text}
    (sequence : t.all Char.isDigit = true ∨ t.all (· == ' ') = true) : Text.byteLength t = t.length := by
  apply Text.byteLength_of_ascii
  intro c member
  rcases sequence with digits | blanks
  · exact Text.toNat_lt_of_isDigit (List.all_eq_true.1 digits c member)
  · have blank := List.all_eq_true.1 blanks c member
    rw [beq_iff_eq.1 blank]
    decide

/-! ## Free format -/

/-- With at most six blanks before it the text keeps its line out of fixed format. -/
theorem IsCode.ofLine_free (is : IsCode code) {indent : Nat} (holds : (Margin.free indent).Holds code) :
    Source.Layout.ofLine (List.replicate indent ' ' ++ code) =
      .free (List.replicate indent ' ' ++ code) := by
  obtain ⟨few, noNumber⟩ := holds
  obtain ⟨c, t, rfl, alphanum⟩ := is.starts
  apply Source.ofLine_free
  intro sequence indicator rest split six
  rw [Bool.eq_false_iff]
  intro fixed
  simp only [Source.isFixed, Bool.or_eq_true, Bool.and_eq_true] at fixed
  rcases fixed with digits | ⟨blanks, indicates⟩
  · -- digits in the first columns are the text's own
    have length : sequence.length = 6 := by rw [← byteLength_of_sequence (.inl digits), six]
    cases indent with
    | zero =>
      have start : (c :: t).take 6 = sequence := by
        rw [← length]
        simp only [List.replicate_zero, List.nil_append] at split
        rw [split, List.take_left]
      rw [← start, noNumber rfl] at digits
      cases digits
    | succ n =>
      obtain ⟨d, sequence, rfl⟩ := List.exists_cons_of_length_eq_add_one length
      rw [List.replicate_succ, List.cons_append, List.cons_append] at split
      obtain ⟨rfl, -⟩ := List.cons.inj split
      simp at digits
  · -- six blanks leave the text's first character as the indicator
    have length : sequence.length = 6 := by rw [← byteLength_of_sequence (.inr blanks), six]
    have columns : sequence = List.replicate 6 ' ' :=
      List.eq_replicate_iff.2 ⟨length, fun d member => beq_iff_eq.1 (List.all_eq_true.1 blanks d member)⟩
    obtain ⟨k, sum⟩ := Nat.exists_eq_add_of_le few
    rw [columns, sum, ← List.replicate_append_replicate, List.append_assoc,
      List.append_cancel_left_eq] at split
    cases k with
    | zero =>
      obtain ⟨rfl, -⟩ := List.cons.inj split
      have among : c = ' ' ∨ c = '*' ∨ c = '/' ∨ c = '-' := by simpa using indicates
      rcases among with rfl | rfl | rfl | rfl <;> exact absurd alphanum (by decide)
    | succ k =>
      rw [List.replicate_succ, List.cons_append] at split
      obtain ⟨rfl, -⟩ := List.cons.inj split
      exact absurd alphanum (by decide)

theorem IsCode.code?_free (is : IsCode code) {indent : Nat} (holds : (Margin.free indent).Holds code) :
    Source.code? (List.replicate indent ' ' ++ code) = some code := by
  obtain ⟨c, first, alphanum⟩ := is.trimStart_head? indent []
  rw [List.append_nil] at first
  have whole := is.beforeComment_between indent 0
  rw [List.replicate_zero, List.append_nil] at whole
  apply is.code?_of_codeArea (n := indent) (m := 0)
  rw [Source.codeArea, is.ofLine_free holds]
  simp only [first, whole, List.replicate_zero, List.append_nil]
  have notStar : some c ≠ some '*' := fun same => Text.ne_of_isAlphanum alphanum rfl (Option.some.inj same)
  have notSlash : some c ≠ some '/' := fun same => Text.ne_of_isAlphanum alphanum rfl (Option.some.inj same)
  rw [if_neg (by simp only [notStar, notSlash, or_self, not_false_eq_true])]

/-! ## Fixed format -/

theorem byteLength_area {indent : Nat} (fits : indent + Text.byteLength code ≤ 65) :
    Text.byteLength (area indent code) = 65 := by
  simp only [area, Text.byteLength_append, Literal.byteLength_replicate_blank]
  omega

/-- The text between blanks, in columns 8 to 72, is the program text. -/
theorem IsCode.code?_fixed (is : IsCode code) {sequence rest : Text} {n m : Nat}
    (six : sequence.length = 6)
    (columns : sequence.all Char.isDigit = true ∨ sequence.all (· == ' ') = true)
    (found : Source.programArea ' ' rest = List.replicate n ' ' ++ code ++ List.replicate m ' ') :
    Source.code? (sequence ++ ' ' :: rest) = some code := by
  have fixed : Source.isFixed sequence ' ' = true := by
    have indicates : " */-".toList.contains ' ' = true := rfl
    simpa only [Source.isFixed, indicates, Bool.and_true, Bool.or_eq_true] using columns
  have bytes : Text.byteLength sequence = 6 := by rw [byteLength_of_sequence columns, six]
  obtain ⟨c, first, alphanum⟩ := is.trimStart_head? n (List.replicate m ' ')
  have notStar : some c ≠ some '*' := fun same => Text.ne_of_isAlphanum alphanum rfl (Option.some.inj same)
  apply is.code?_of_codeArea (n := n) (m := m)
  rw [Source.codeArea, Source.ofLine_fixed rest bytes fixed]
  simp only [found, first, is.beforeComment_between]
  rw [if_neg (by simp only [notStar, or_false]; decide)]

/-- **A text put on a line under a margin that holds is read back from it.** -/
theorem IsCode.code?_place (is : IsCode code) {margin : Margin} (holds : margin.Holds code) :
    Source.code? (margin.place code) = some code := by
  have narrow : (' ' : Char).utf8Size = 1 := rfl
  cases margin with
  | free indent => exact is.code?_free holds
  | fixed sequence indent identification =>
    obtain ⟨six, columns, fits, -⟩ := holds
    cases identification with
    | none =>
      apply is.code?_fixed six columns (n := indent) (m := 0)
      rw [Source.programArea_eq_self narrow, List.replicate_zero, List.append_nil]
      rw [Text.byteLength_append, Literal.byteLength_replicate_blank]
      exact fits
    | some identification =>
      apply is.code?_fixed six columns (n := indent) (m := 65 - (indent + Text.byteLength code))
      rw [Source.programArea_append narrow (byteLength_area fits), area]

/-! ## The line ends -/

theorem not_mem_replicate_blank {c : Char} (n : Nat) (other : c ≠ ' ') : c ∉ List.replicate n ' ' :=
  fun member => other (List.eq_of_mem_replicate member)

theorem not_mem_of_sequence {c : Char} {t : Text} (notDigit : c.isDigit = false) (other : c ≠ ' ')
    (sequence : t.all Char.isDigit = true ∨ t.all (· == ' ') = true) : c ∉ t := by
  intro member
  rcases sequence with digits | blanks
  · rw [List.all_eq_true.1 digits c member] at notDigit
    cases notDigit
  · exact other (beq_iff_eq.1 (List.all_eq_true.1 blanks c member))

/-- No line holds a line feed. -/
theorem IsCode.newline_not_mem_place (is : IsCode code) {margin : Margin} (holds : margin.Holds code) :
    '\n' ∉ margin.place code := by
  have blanks : ∀ n, '\n' ∉ List.replicate n ' ' := fun n => not_mem_replicate_blank n (by decide)
  cases margin with
  | free indent => simp only [Margin.place, List.mem_append, blanks, is.oneLine, or_self, not_false_eq_true]
  | fixed sequence indent identification =>
    obtain ⟨-, columns, -, tail⟩ := holds
    have area_ : '\n' ∉ sequence := not_mem_of_sequence rfl (by decide) columns
    cases identification with
    | none => simp [Margin.place, area_, blanks, is.oneLine]
    | some identification =>
      simp [Margin.place, area, area_, blanks, is.oneLine, (tail identification rfl).1]

theorem getLast?_append_ne {c : Char} {t u : Text} (first : t.getLast? ≠ some c)
    (second : u.getLast? ≠ some c) : (t ++ u).getLast? ≠ some c := by
  rw [List.getLast?_append]
  intro last
  rcases Option.or_eq_some_iff.1 last with here | ⟨-, there⟩
  · exact second here
  · exact first there

/-- No line ends with a carriage return. -/
theorem IsCode.getLast?_place (is : IsCode code) {margin : Margin} (holds : margin.Holds code) :
    (margin.place code).getLast? ≠ some '\r' := by
  have notReturn : code.getLast? ≠ some '\r' := is.getLast?_ne (by decide)
  have blanks : ∀ n, (List.replicate n ' ').getLast? ≠ some '\r' := fun n last =>
    not_mem_replicate_blank n (by decide) (List.mem_of_getLast? last)
  have indented : ∀ n, (List.replicate n ' ' ++ code).getLast? ≠ some '\r' := fun n =>
    getLast?_append_ne (blanks n) notReturn
  cases margin with
  | free indent => exact indented indent
  | fixed sequence indent identification =>
    obtain ⟨-, columns, -, tail⟩ := holds
    have margin_ : (sequence ++ [' ']).getLast? ≠ some '\r' := by simp
    cases identification with
    | none =>
      have parts := getLast?_append_ne margin_ (indented indent)
      simpa only [Margin.place, List.append_assoc, List.singleton_append] using parts
    | some identification =>
      have noReturn : identification.getLast? ≠ some '\r' := fun last =>
        (tail identification rfl).2 (List.mem_of_getLast? last)
      have padded := getLast?_append_ne (indented indent) (blanks (65 - (indent + Text.byteLength code)))
      have parts := getLast?_append_ne margin_ (getLast?_append_ne padded noReturn)
      simpa only [Margin.place, area, List.append_assoc, List.singleton_append] using parts

/-! ## All lines -/

/-- How the lines of a program are written: the margin of line `n`, and whether a statement on it ends its
sentence. -/
structure Page where
  margin : Nat → Margin
  period : Nat → Bool

/-- The lines of a skeleton. -/
def lines (page : Page) (s : Skeleton) : List Text :=
  s.constructs.mapIdx fun i c => (page.margin (i + 1)).place (c.code (page.period (i + 1)))

/-- The source text of a skeleton. -/
def render (page : Page) (s : Skeleton) : Text := (s.lines page).flatMap (· ++ ['\n'])

end Skeleton

end CobolAtlas
