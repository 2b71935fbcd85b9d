/-
# CobolAtlas.Proofs.Source.SequenceArea -- numbers in columns 1 to 6

A line whose sequence area is blank can be given a number in it (`Numbered`).  A line that has an indicator column is
read as before (`code?_area`).  A line of six blanks and nothing else is not: it has no column 7, so that its number
is not taken for a sequence area but for program text (`code?_number`).  In the procedure division such a line is then
seen, and everywhere it is taken for the middle of a sentence (`advance_number`).
-/
import CobolAtlas.Proofs.Source.Line
import CobolAtlas.Proofs.Source.Literal
import CobolAtlas.Proofs.Source.Report
import CobolAtlas.Proofs.Text.Ends
import CobolAtlas.Proofs.Text.Word

namespace CobolAtlas.Source

set_option autoImplicit false

open Text

/-! ## Numbers -/

/-- A sequence area without a number. -/
def blankArea : Text := List.replicate 6 ' '

/-- A sequence number. -/
structure IsNumber (n : Text) : Prop where
  length_eq : n.length = 6
  digits : n.all Char.isDigit = true

instance (n : Text) : Decidable (IsNumber n) :=
  decidable_of_iff (n.length = 6 ∧ n.all Char.isDigit = true)
    ⟨fun ⟨six, digits⟩ => ⟨six, digits⟩, fun ⟨six, digits⟩ => ⟨six, digits⟩⟩

/-- The indicators that put a line without a number into fixed format. -/
def isIndicator (c : Char) : Bool := " */-".toList.contains c

/-- The second line is the first one with a number in its blank sequence area; column 7, where there is one, is an
indicator. -/
structure Numbered (line line' : Text) : Prop where
  blank : line.take 6 = blankArea
  number : IsNumber (line'.take 6)
  rest : line'.drop 6 = line.drop 6
  indicator : (line.drop 6).head?.all isIndicator = true

instance (line line' : Text) : Decidable (Numbered line line') :=
  decidable_of_iff
    (line.take 6 = blankArea ∧ IsNumber (line'.take 6) ∧ line'.drop 6 = line.drop 6 ∧
      (line.drop 6).head?.all isIndicator = true)
    ⟨fun ⟨blank, number, rest, indicator⟩ => ⟨blank, number, rest, indicator⟩,
      fun ⟨blank, number, rest, indicator⟩ => ⟨blank, number, rest, indicator⟩⟩

section Number

variable {number : Text} (isNumber : IsNumber number)

include isNumber

theorem IsNumber.isDigit : ∀ c ∈ number, c.isDigit = true := List.all_eq_true.1 isNumber.digits

theorem IsNumber.isWord : IsWord number := by
  intro c member
  exact isNameCharacter_of_isAlphanum (isAlphanum_of_isDigit (isNumber.isDigit c member))

theorem IsNumber.ne_nil : number ≠ [] := by
  intro empty
  have six := isNumber.length_eq
  rw [empty] at six
  cases six

theorem IsNumber.exists_cons : ∃ c t, number = c :: t ∧ c.isDigit = true := by
  obtain ⟨c, t, rfl⟩ := List.exists_cons_of_ne_nil isNumber.ne_nil
  exact ⟨c, t, rfl, isNumber.isDigit c List.mem_cons_self⟩

theorem IsNumber.byteLength_eq : byteLength number = 6 := by
  have ascii : ∀ c ∈ number, c.toNat < 128 := fun c member => toNat_lt_of_isDigit (isNumber.isDigit c member)
  rw [byteLength_of_ascii ascii, isNumber.length_eq]

theorem IsNumber.notBlank {c : Char} (member : c ∈ number) : isBlank c = false :=
  isBlank_of_isAlphanum (isAlphanum_of_isDigit (isNumber.isDigit c member))

theorem IsNumber.notMem {c : Char} (other : c.isDigit = false) : c ∉ number := by
  intro member
  rw [isNumber.isDigit c member] at other
  cases other

theorem afterKeyword?_number {k : Char} (letter : k.isUpper = true) (keyword : Text) :
    afterKeyword? (k :: keyword) number = none := by
  obtain ⟨c, t, rfl, digit⟩ := isNumber.exists_cons
  rw [afterKeyword?, letterStandsFor_digit letter digit]
  rfl

theorem name?_number : name? number = some (number, []) := by
  have whole : name? (number ++ []) = some (number, []) := name?_append isNumber.ne_nil isNumber.isWord rfl
  rwa [List.append_nil] at whole

/-! ## Reading a bare number -/

/-- Without column 7 a number is program text. -/
theorem code?_number : code? number = some number := by
  have free : Layout.ofLine number = .free number := ofLine_free fun sequence indicator rest cut six => by
    have whole := isNumber.byteLength_eq
    have positive := indicator.utf8Size_pos
    rw [cut, byteLength_append, byteLength_cons] at whole
    omega
  obtain ⟨c, t, rfl, digit⟩ := isNumber.exists_cons
  have notBlank := isNumber.notBlank List.mem_cons_self
  have star : '*' ∉ c :: t := isNumber.notMem rfl
  have slash : '/' ∉ c :: t := isNumber.notMem rfl
  have noComment : beforeComment (c :: t) = c :: t :=
    beforeComment_eq_self fun mark => star (mark.subset (by decide))
  have area : codeArea (c :: t) = some (c :: t) := by
    rw [codeArea, free]
    simp only [trimStart_cons_of_not_blank notBlank, List.head?_cons, Option.some.injEq, noComment]
    refine if_neg ?_
    rintro (rfl | rfl)
    · exact star List.mem_cons_self
    · exact slash List.mem_cons_self
  have trimmed : trim (c :: t) = c :: t := trim_eq_self
    (fun d head => isNumber.notBlank (List.mem_of_mem_head? head))
    (fun d last => isNumber.notBlank (List.mem_of_getLast? last))
  rw [code?, area, Option.bind_some, trimmed]
  rfl

theorem header?_number : header? number = none := by
  have unnamed : headerName? number = none := by
    obtain ⟨c, t, rfl, digit⟩ := isNumber.exists_cons
    have word : isWordCharacter c = true := isWordCharacter_of_isAlphanum (isAlphanum_of_isDigit digit)
    simp only [headerName?, name?_number isNumber, Option.bind_eq_bind, Option.bind_some, word, if_true]
    rfl
  have noDivision : divisionName? number = none := by rw [divisionName?, unnamed]; rfl
  have noSection : sectionName? number = none := by rw [sectionName?, unnamed]; rfl
  have noId : programIdName? number = none := by
    have passed : afterKeyword? "PROGRAM-ID".toList number = none := afterKeyword?_number isNumber rfl _
    rw [programIdName?, passed]
    rfl
  rw [header?, noDivision, noSection, noId]
  rfl

theorem dataItem?_number (line : LineNumber) : dataItem? line number = none := by
  have digits : number.takeWhile isDecimalDigit = number :=
    List.takeWhile_eq_self_iff.2 fun c member => isDecimalDigit_of_isDigit (isNumber.isDigit c member)
  have long : (number.isEmpty || decide (2 < number.length)) = true := by simp [isNumber.length_eq]
  have unnamed : levelAndName? number = none := by
    simp only [levelAndName?, digits, long, if_true, Option.bind_eq_bind, Option.bind_none]
  rw [dataItem?, unnamed]
  rfl

theorem paragraphHeader?_number (sentenceStart : Bool) : paragraphHeader? sentenceStart number = none := by
  have unnamed : paragraphName? number = none := by
    simp only [paragraphName?, name?_number isNumber, Option.bind_eq_bind, Option.bind_some]
    rfl
  rw [paragraphHeader?, unnamed]
  cases sentenceStart <;> rfl

theorem statements_number (line : LineNumber) : statements line number = [] := by
  have shown : Literal.mask number = number := by
    apply Literal.mask_eq_self
    intro c member
    have alphanum := isAlphanum_of_isDigit (isNumber.isDigit c member)
    simp [Name.isQuote, ne_of_isAlphanum alphanum]
  have call : callTarget? number = none := by
    have passed : afterKeyword? "CALL".toList number = none := afterKeyword?_number isNumber rfl _
    rw [callTarget?, shown, search_of_word _ isNumber.isWord, callOperand?, passed]
    rfl
  have perform : performRange? number = none := by
    have passed : afterKeyword? "PERFORM".toList number = none := afterKeyword?_number isNumber rfl _
    rw [performRange?, shown, search_of_word _ isNumber.isWord, performWords?, passed]
    rfl
  have goTo : goToTarget? number = none := by
    have passed : afterKeyword? "GO".toList number = none := afterKeyword?_number isNumber rfl _
    rw [goToTarget?, shown, search_of_word _ isNumber.isWord, goToWord?, passed]
    rfl
  rw [statements, call, perform, goTo]
  rfl

/-- In the procedure division a bare number is a line that is seen, and elsewhere it reports nothing. -/
theorem lineEvents_number (division : Option Text) (sentenceStart : Bool) (line : LineNumber) :
    lineEvents division sentenceStart line number =
      if division = some "PROCEDURE".toList then [.observe line] else [] :=
  lineEvents_of_unread (header?_number isNumber) (dataItem?_number isNumber line) (paragraphHeader?_number isNumber _)
    (statements_number isNumber line)

/-- A bare number is taken for the middle of a sentence. -/
theorem advance_number (s : Scan) (line : LineNumber) :
    s.advance (line, number) =
      ⟨if s.assembly.division = some "PROCEDURE".toList then s.assembly.observe line else s.assembly, false⟩ := by
  have last : (number.getLast? == some '.') = false := beq_eq_false_iff_ne.2 fun period =>
    isNumber.notMem rfl (List.mem_of_getLast? period)
  rw [Scan.advance, lineEvents_number isNumber, last]
  split <;> rfl

end Number

/-! ## Numbered lines -/

/-- Where there is a column 7 the sequence area is a sequence area, with a number or without. -/
theorem code?_area {number : Text} (isNumber : IsNumber number) {indicator : Char}
    (allowed : isIndicator indicator = true) (rest : Text) :
    code? (number ++ indicator :: rest) = code? (blankArea ++ indicator :: rest) := by
  have digits : isFixed number indicator = true :=
    Bool.or_eq_true_iff.2 (.inl isNumber.digits)
  have blanks : isFixed blankArea indicator = true :=
    Bool.or_eq_true_iff.2 (.inr (Bool.and_eq_true_iff.2 ⟨rfl, allowed⟩))
  rw [code?, code?, codeArea, codeArea, ofLine_fixed rest isNumber.byteLength_eq digits,
    ofLine_fixed rest (by decide) blanks]

theorem code?_blankArea : code? blankArea = none := by decide +kernel

/-- A line of six blanks becomes a bare number; every other line is read as before. -/
theorem Numbered.cases {line line' : Text} (numbered : Numbered line line') :
    line = blankArea ∧ IsNumber line' ∨ line ≠ blankArea ∧ code? line' = code? line := by
  have whole := List.take_append_drop 6 line
  have whole' := List.take_append_drop 6 line'
  rw [numbered.blank] at whole
  rw [numbered.rest] at whole'
  have isNumber := numbered.number
  have indicator := numbered.indicator
  generalize line'.take 6 = number at isNumber whole'
  generalize line.drop 6 = rest at indicator whole whole'
  subst whole whole'
  cases rest with
  | nil =>
    rw [List.append_nil, List.append_nil]
    exact .inl ⟨rfl, isNumber⟩
  | cons c rest =>
    refine .inr ⟨fun same => ?_, code?_area isNumber indicator rest⟩
    have long := congrArg List.length same
    rw [List.length_append, List.length_cons] at long
    omega

end CobolAtlas.Source
