/-
# CobolAtlas.Proofs.Source.LetterCase -- COBOL is read in any letter case

A text and the same text with the letters of ASCII in upper case make the same program, but that names which are
kept as they were written are in upper case too: `ofSource_upperAscii`.  Each recogniser of code lines finds the
same in both (`readsAs_upperAscii`), since keywords are passed in any letter case, words are compared without it,
and the places where a line is cut do not depend on letters.
-/
import CobolAtlas.Proofs.Source.Masking
import CobolAtlas.Proofs.Source.Relabelling
import CobolAtlas.Proofs.Text.LetterCase

namespace CobolAtlas

set_option autoImplicit false

open Text

/-- Names in upper case, as far as ASCII goes, and all lines as they are. -/
def Relabelling.upper : Relabelling := ⟨upperAscii, id⟩

/-! ## Names -/

namespace Name

theorem caseless_isQuote : Caseless isQuote := toUpper_congr isQuote (by decide)

theorem clean_upperAscii (t : Text) : clean (upperAscii t) = upperAscii (clean t) := by
  rw [clean, trim_upperAscii, dropEndWhile_upperAscii (caseless_beq rfl), trim_upperAscii,
    dropBothWhile_upperAscii caseless_isQuote, clean]

theorem upper_upperAscii (t : Text) : Text.upper (upperAscii t) = Text.upper t := by
  have same (c : Char) : upperCharacter c.toUpper = upperCharacter c := toUpper_congr upperCharacter (by decide) c
  rw [Text.upper, upperAscii, List.flatMap_map, Text.upper]
  exact List.flatMap_congr fun c _ => same c

theorem ofDivision_upperAscii (t : Text) : ofDivision (upperAscii t) = ofDivision t := by
  rw [ofDivision, trim_upperAscii, upper_upperAscii, ofDivision]

theorem ofSection_upperAscii (t : Text) : ofSection (upperAscii t) = ofSection t := by
  rw [ofSection, clean_upperAscii, upper_upperAscii, ofSection]

end Name

theorem upper_name (name : Text) : Relabelling.upper.name name = upperAscii name := rfl

theorem upper_lawful (bound : LineNumber) : Relabelling.upper.Lawful bound where
  clean := by
    intro name
    rw [upper_name, upper_name, Name.clean_upperAscii]
  ofDivision := by
    intro name
    rw [upper_name, Name.ofDivision_upperAscii]
  ofSection := by
    intro name
    rw [upper_name, Name.ofSection_upperAscii]
  isEmpty := by
    intro name
    rw [upper_name, isEmpty_upperAscii]
  line := fun _ _ le _ => le

/-! ## Literals -/

namespace Literal

/-- Quotes are no letters. -/
theorem isAlpha_of_isQuote {c : Char} (quote : Name.isQuote c = true) : c.isAlpha = false :=
  spares_of_quotes (p := Char.isAlpha) rfl rfl c quote

variable {opened : Option Char} (quotes : ∀ q ∈ opened, Name.isQuote q = true)
include quotes

/-- What is open after a character does not depend on its letter case. -/
theorem next_toUpper (c : Char) : next opened c.toUpper = next opened c := by
  cases opened with
  | some q =>
    have same : (c.toUpper == q) = (c == q) := caseless_beq (isAlpha_of_isQuote (quotes q rfl)) c
    have lineEnd : (c.toUpper == '\n') = (c == '\n') := caseless_beq rfl c
    simp only [next, same, lineEnd]
  | none =>
    simp only [next, Name.caseless_isQuote c]
    split
    · rename_i quote
      rw [(toUpper_eq_iff (isAlpha_of_isQuote quote) c).2 rfl]
    · rfl

theorem shown_toUpper (c : Char) : shown opened c.toUpper = upperAscii (shown opened c) := by
  cases opened with
  | some q =>
    have same : (c.toUpper == q) = (c == q) := caseless_beq (isAlpha_of_isQuote (quotes q rfl)) c
    have lineEnd : (c.toUpper == '\n') = (c == '\n') := caseless_beq rfl c
    simp only [shown, same, lineEnd, utf8Size_toUpper]
    split
    · rfl
    · exact (upperAscii_eq_self fun d member => by rw [List.eq_of_mem_replicate member]; rfl).symm
  | none => rfl

theorem maskFrom_upperAscii (t : Text) : maskFrom opened (upperAscii t) = upperAscii (maskFrom opened t) := by
  induction t generalizing opened with
  | nil => rfl
  | cons c t ih =>
    rw [upperAscii_cons, maskFrom, maskFrom, shown_toUpper quotes, next_toUpper quotes,
      ih (isQuote_of_mem_next quotes c), upperAscii_append]

end Literal

namespace Source

/-! ## Code lines -/

section Lines

theorem isFixed_upperAscii (sequence : Text) (indicator : Char) :
    isFixed (upperAscii sequence) indicator.toUpper = isFixed sequence indicator := by
  have blank := all_upperAscii (t := sequence) (caseless_beq (d := ' ') rfl)
  have digit := all_upperAscii (t := sequence) caseless_isDigit
  have allowed : " */-".toList.contains indicator.toUpper = " */-".toList.contains indicator :=
    toUpper_congr (fun c => " */-".toList.contains c) (by decide) indicator
  rw [isFixed, digit, blank, allowed, isFixed]

def Layout.upper : Layout → Layout
  | .fixed sequence indicator rest => .fixed (upperAscii sequence) indicator.toUpper (upperAscii rest)
  | .free line => .free (upperAscii line)

theorem ofLine_upperAscii (line : Text) : Layout.ofLine (upperAscii line) = (Layout.ofLine line).upper := by
  rw [Layout.ofLine, Layout.ofLine, splitAtByte?_upperAscii]
  cases splitAtByte? 6 line with
  | none => rfl
  | some parts =>
    obtain ⟨sequence, _ | ⟨indicator, rest⟩⟩ := parts
    · rfl
    · simp only [Option.map_some, upperAscii_cons, isFixed_upperAscii]
      split <;> rfl

theorem beforeComment_upperAscii (t : Text) : beforeComment (upperAscii t) = upperAscii (beforeComment t) := by
  fun_induction beforeComment t with
  | case1 rest => rfl
  | case2 c t noMark ih =>
    rw [upperAscii_cons, beforeComment, ih, upperAscii_cons]
    intro rest star mark
    cases t with
    | nil => cases mark
    | cons d t =>
      obtain ⟨mark, -⟩ := List.cons.inj mark
      exact noMark t ((toUpper_eq_iff rfl c).1 star) (by rw [(toUpper_eq_iff rfl d).1 mark])
  | case3 => rfl

theorem programArea_upperAscii (indicator : Char) (rest : Text) :
    programArea indicator.toUpper (upperAscii rest) = upperAscii (programArea indicator rest) := by
  rw [programArea, programArea, utf8Size_toUpper, splitAtByte?_upperAscii]
  split
  · cases splitAtByte? 65 rest <;> rfl
  · rfl

theorem head?_upperAscii_eq_iff {d : Char} (noLetter : d.isAlpha = false) (t : Text) :
    (upperAscii t).head? = some d ↔ t.head? = some d := by
  cases t with
  | nil => rfl
  | cons c t => simp [toUpper_eq_iff noLetter]

theorem codeArea_upperAscii (line : Text) : codeArea (upperAscii line) = (codeArea line).map upperAscii := by
  have star (t : Text) : (trimStart (upperAscii t)).head? = some '*' ↔ (trimStart t).head? = some '*' := by
    rw [trimStart_upperAscii, head?_upperAscii_eq_iff rfl]
  have slash (t : Text) : (trimStart (upperAscii t)).head? = some '/' ↔ (trimStart t).head? = some '/' := by
    rw [trimStart_upperAscii, head?_upperAscii_eq_iff rfl]
  rw [codeArea, codeArea, ofLine_upperAscii]
  cases Layout.ofLine line with
  | fixed sequence indicator rest =>
    simp only [Layout.upper, programArea_upperAscii, star, toUpper_eq_iff (d := '*') rfl, toUpper_eq_iff (d := '/') rfl]
    split
    · rfl
    · rw [beforeComment_upperAscii, Option.map_some]
  | free line =>
    simp only [Layout.upper, star, slash]
    split
    · rfl
    · rw [beforeComment_upperAscii, Option.map_some]

theorem code?_upperAscii (line : Text) : code? (upperAscii line) = (code? line).map upperAscii := by
  rw [code?, code?, codeArea_upperAscii]
  cases codeArea line with
  | none => rfl
  | some area =>
    simp only [Option.map_some, Option.bind_some, trim_upperAscii, isEmpty_upperAscii]
    split <;> rfl

theorem codeLines_upperAscii (text : Text) :
    codeLines (upperAscii text) = (codeLines text).map fun c => (c.1, upperAscii c.2) := by
  have numbered (first : Nat) (ls : List Text) : numberedCode first (ls.map upperAscii) =
      (numberedCode first ls).map fun c => (c.1, upperAscii c.2) := by
    induction ls generalizing first with
    | nil => rfl
    | cons line ls ih =>
      rw [List.map_cons, numberedCode, numberedCode, ih, code?_upperAscii, List.map_append]
      cases code? line <;> rfl
  rw [codeLines, lines_upperAscii, numbered, codeLines]

end Lines

/-! ## Headers -/

section Headers

variable (t : Text)

theorem headerName?_upperAscii :
    headerName? (upperAscii t) = (headerName? t).map fun (name, rest) => (upperAscii name, upperAscii rest) := by
  simp only [headerName?, name?_upperAscii, Option.bind_eq_bind]
  cases name? t with
  | none => rfl
  | some found =>
    obtain ⟨_ | ⟨c, name⟩, rest⟩ := found
    · rfl
    · simp only [Option.map_some, Option.bind_some, upperAscii_cons, caseless_isWordCharacter c,
        skipBlanks?_upperAscii]
      split
      · cases skipBlanks? rest <;> rfl
      · rfl

theorem endsWord_upperAscii : endsWord (upperAscii t) = endsWord t := by
  cases t with
  | nil => rfl
  | cons c t => exact congrArg Bool.not (caseless_isWordCharacter c)

theorem divisionName?_upperAscii : divisionName? (upperAscii t) = (divisionName? t).map upperAscii := by
  simp only [divisionName?, headerName?_upperAscii, Option.bind_eq_bind]
  cases headerName? t with
  | none => rfl
  | some found =>
    simp only [Option.map_some, Option.bind_some, afterKeyword?_upperAscii]
    cases afterKeyword? "DIVISION".toList found.2 with
    | none => rfl
    | some rest =>
      simp only [Option.map_some, Option.bind_some, endsWord_upperAscii]
      split <;> rfl

theorem sectionName?_upperAscii : sectionName? (upperAscii t) = (sectionName? t).map upperAscii := by
  simp only [sectionName?, headerName?_upperAscii, Option.bind_eq_bind]
  cases headerName? t with
  | none => rfl
  | some found =>
    simp only [Option.map_some, Option.bind_some, afterKeyword?_upperAscii]
    cases afterKeyword? "SECTION".toList found.2 with
    | none => rfl
    | some rest =>
      simp only [Option.map_some, Option.bind_some, trimStart_upperAscii, head?_upperAscii_eq_iff (d := '.') rfl]
      split <;> rfl

theorem afterIdSeparator?_upperAscii : afterIdSeparator? (upperAscii t) = (afterIdSeparator? t).map upperAscii := by
  simp only [afterIdSeparator?, trimStart_upperAscii, skipBlanks?_upperAscii]
  cases trimStart t with
  | nil => rfl
  | cons c rest =>
    by_cases period : c = '.'
    · subst period
      exact skipBlanks?_upperAscii rest
    · have other : c.toUpper ≠ '.' := fun same => period ((toUpper_eq_iff rfl c).1 same)
      simp [period, other]

theorem programIdName?_upperAscii : programIdName? (upperAscii t) = (programIdName? t).map upperAscii := by
  simp only [programIdName?, afterKeyword?_upperAscii, Option.bind_eq_bind]
  cases afterKeyword? "PROGRAM-ID".toList t with
  | none => rfl
  | some rest =>
    simp only [Option.map_some, Option.bind_some, afterIdSeparator?_upperAscii]
    cases afterIdSeparator? rest with
    | none => rfl
    | some rest =>
      cases rest with
      | nil => rfl
      | cons c body =>
        have named (u : Text) : (name? (upperAscii u)).map (·.1) = ((name? u).map (·.1)).map upperAscii := by
          rw [name?_upperAscii]
          cases name? u <;> rfl
        show (name? (if Name.isQuote c.toUpper then upperAscii body else upperAscii (c :: body))).map (·.1) = _
        rw [Name.caseless_isQuote c]
        split
        · rename_i quote
          simp only [Option.bind_some, quote, if_true, named]
        · rename_i noQuote
          simp only [Option.bind_some, noQuote, Bool.false_eq_true, if_false, named]

theorem header?_upperAscii : header? (upperAscii t) = (header? t).map (Header.relabel .upper) := by
  rw [header?, header?, divisionName?_upperAscii, sectionName?_upperAscii, programIdName?_upperAscii]
  cases divisionName? t with
  | some name => rfl
  | none =>
    cases sectionName? t with
    | some name => rfl
    | none => cases programIdName? t <;> rfl

end Headers

/-! ## Items and paragraphs -/

section Items

variable (t : Text)

/-- Digits are no letters. -/
theorem toUpper_of_isDecimalDigit {c : Char} (digit : isDecimalDigit c = true) : c.toUpper = c := by
  rcases Nat.lt_or_ge c.toNat 128 with small | beyond
  · exact of_ascii (P := fun c => isDecimalDigit c = true → c.toUpper = c) (by decide) small digit
  · exact toUpper_of_not_ascii beyond

theorem levelAndName?_upperAscii :
    levelAndName? (upperAscii t) = (levelAndName? t).map fun (level, name) => (level, upperAscii name) := by
  have level : upperAscii (t.takeWhile isDecimalDigit) = t.takeWhile isDecimalDigit :=
    upperAscii_eq_self fun c member => toUpper_of_isDecimalDigit (List.mem_takeWhile_imp member)
  simp only [levelAndName?, takeWhile_upperAscii caseless_isDecimalDigit,
    dropWhile_upperAscii caseless_isDecimalDigit, level, skipBlanks?_upperAscii, Option.bind_eq_bind]
  split
  · rfl
  · cases skipBlanks? (t.dropWhile isDecimalDigit) with
    | none => rfl
    | some rest =>
      simp only [Option.map_some, Option.bind_some, name?_upperAscii]
      cases name? rest with
      | none => rfl
      | some found =>
        simp only [Option.map_some, Option.bind_some, dropEndWhile_upperAscii (caseless_beq (d := '-') rfl),
          isEmpty_upperAscii]
        split <;> rfl

theorem caseless_isPictureCharacter : Caseless isPictureCharacter :=
  toUpper_congr isPictureCharacter (by decide)

theorem pictureRun?_upperAscii : pictureRun? (upperAscii t) = (pictureRun? t).map upperAscii := by
  have rest : ((skipBlanks? t).map upperAscii).getD [] = upperAscii ((skipBlanks? t).getD []) := by
    cases skipBlanks? t <;> rfl
  rw [pictureRun?, pictureRun?, skipBlanks?_upperAscii, rest, takeWhile_upperAscii caseless_isPictureCharacter]
  cases ((skipBlanks? t).getD []).takeWhile isPictureCharacter <;> rfl

theorem pictureClause?_upperAscii : pictureClause? (upperAscii t) = (pictureClause? t).map upperAscii := by
  simp only [pictureClause?, afterKeyword?_upperAscii, Option.bind_eq_bind]
  cases afterKeyword? "PIC".toList t with
  | none => rfl
  | some rest =>
    have keyword : ((afterKeyword? "TURE".toList rest).map upperAscii).getD (upperAscii rest) =
        upperAscii ((afterKeyword? "TURE".toList rest).getD rest) := by
      cases afterKeyword? "TURE".toList rest <;> rfl
    simp only [Option.map_some, Option.bind_some, afterKeyword?_upperAscii, keyword]
    generalize (afterKeyword? "TURE".toList rest).getD rest = rest
    have is : ((skipBlanks? (upperAscii rest)).bind (afterKeyword? "IS".toList)).bind pictureRun? =
        (((skipBlanks? rest).bind (afterKeyword? "IS".toList)).bind pictureRun?).map upperAscii := by
      rw [skipBlanks?_upperAscii]
      cases skipBlanks? rest with
      | none => rfl
      | some after =>
        simp only [Option.map_some, Option.bind_some, afterKeyword?_upperAscii]
        cases afterKeyword? "IS".toList after with
        | none => rfl
        | some clause => exact pictureRun?_upperAscii clause
    rw [is]
    cases ((skipBlanks? rest).bind (afterKeyword? "IS".toList)).bind pictureRun? with
    | none => exact pictureRun?_upperAscii rest
    | some run => rfl

theorem picture?_upperAscii : picture? (upperAscii t) = (picture? t).map upperAscii := by
  rw [picture?, picture?, search_upperAscii t pictureClause?_upperAscii]
  cases search pictureClause? t with
  | none => rfl
  | some run =>
    simp only [Option.map_some, dropEndWhile_upperAscii (caseless_beq (d := '.') rfl), isEmpty_upperAscii]
    split <;> rfl

theorem paragraphName?_upperAscii : paragraphName? (upperAscii t) = (paragraphName? t).map upperAscii := by
  have period (rest : Text) : trim (upperAscii rest) = ['.'] ↔ trim rest = ['.'] := by
    rw [trim_upperAscii]
    rcases trim rest with _ | ⟨c, _ | ⟨d, u⟩⟩
    · rfl
    · simp [toUpper_eq_iff (d := '.') rfl]
    · simp
  simp only [paragraphName?, name?_upperAscii, Option.bind_eq_bind]
  cases name? t with
  | none => rfl
  | some found =>
    simp only [Option.map_some, Option.bind_some, period]
    split <;> rfl

theorem isSentenceVerb_upperAscii : isSentenceVerb (upperAscii t) = isSentenceVerb t := by
  have start : (upperAscii t).take 4 = upperAscii (t.take 4) := List.map_take.symm
  have length : (upperAscii t).length = t.length := List.length_map _
  have ending : sameIgnoringCase (upperAscii (t.take 4)) "END-".toList = sameIgnoringCase (t.take 4) "END-".toList := by
    rw [sameIgnoringCase, upperAscii_upperAscii, sameIgnoringCase]
  simp only [isSentenceVerb, start, length, ending, sameIgnoringCase_upperAscii]

theorem paragraphHeader?_upperAscii (sentenceStart : Bool) :
    paragraphHeader? sentenceStart (upperAscii t) = (paragraphHeader? sentenceStart t).map upperAscii := by
  rw [paragraphHeader?, paragraphHeader?]
  split
  · rw [paragraphName?_upperAscii]
    cases paragraphName? t with
    | none => rfl
    | some name =>
      simp only [Option.map_some, Option.filter_some, isSentenceVerb_upperAscii]
      split <;> rfl
  · rfl

end Items

/-! ## Statements -/

section Statements

variable (t : Text)

theorem mask_upperAscii : Literal.mask (upperAscii t) = upperAscii (Literal.mask t) :=
  Literal.maskFrom_upperAscii (fun _ none => by cases none) t

def CallOperand.upper : CallOperand → CallOperand
  | .literal toEnd length => .literal toEnd length
  | .dataName name => .dataName (upperAscii name)

theorem callOperand?_upperAscii : callOperand? (upperAscii t) = (callOperand? t).map CallOperand.upper := by
  simp only [callOperand?, afterKeyword?_upperAscii, Option.bind_eq_bind]
  cases afterKeyword? "CALL".toList t with
  | none => rfl
  | some rest =>
    simp only [Option.map_some, Option.bind_some, skipBlanks?_upperAscii]
    cases skipBlanks? rest with
    | none => rfl
    | some rest =>
      cases rest with
      | nil => rfl
      | cons c body =>
        simp only [Option.map_some, Option.bind_some, upperAscii_cons, Name.caseless_isQuote c,
          caseless_isLetterOrDigit c]
        split
        · rename_i quote
          have noLetter : c.isAlpha = false := Literal.isAlpha_of_isQuote quote
          have same : c.toUpper = c := (toUpper_eq_iff noLetter c).2 rfl
          have content : (upperAscii body).takeWhile (· != c) = upperAscii (body.takeWhile (· != c)) :=
            takeWhile_upperAscii (caseless_beq noLetter).not
          simp only [same, content, isEmpty_upperAscii, contains_upperAscii noLetter, byteLength_upperAscii]
          split <;> rfl
        · rw [takeWhile_upperAscii caseless_isNameCharacter]
          split <;> rfl

theorem callTarget?_upperAscii : callTarget? (upperAscii t) = (callTarget? t).map (CallTarget.relabel .upper) := by
  rw [callTarget?, callTarget?, mask_upperAscii, search_upperAscii _ callOperand?_upperAscii]
  cases search callOperand? (Literal.mask t) with
  | none => rfl
  | some operand =>
    cases operand with
    | dataName name => rfl
    | literal toEnd length =>
      simp only [Option.map_some, CallOperand.upper, byteLength_upperAscii, byteSlice_upperAscii, trim_upperAscii,
        isEmpty_upperAscii]
      split <;> rfl

theorem nextName?_upperAscii :
    nextName? (upperAscii t) = (nextName? t).map fun (name, rest) => (upperAscii name, upperAscii rest) := by
  rw [nextName?, nextName?, skipBlanks?_upperAscii]
  cases skipBlanks? t with
  | none => rfl
  | some rest => exact name?_upperAscii rest

def PerformWords.upper (w : PerformWords) : PerformWords :=
  ⟨upperAscii w.gap, upperAscii w.first, w.second.map upperAscii, w.third.map upperAscii⟩

theorem performWords?_upperAscii : performWords? (upperAscii t) = (performWords? t).map PerformWords.upper := by
  simp only [performWords?, afterKeyword?_upperAscii, Option.bind_eq_bind]
  cases afterKeyword? "PERFORM".toList t with
  | none => rfl
  | some rest =>
    simp only [Option.map_some, Option.bind_some, gap?_upperAscii]
    cases gap? rest with
    | none => rfl
    | some gap =>
      simp only [Option.map_some, Option.bind_some, name?_upperAscii]
      cases name? gap.2 with
      | none => rfl
      | some first =>
        simp only [Option.map_some, Option.bind_some, nextName?_upperAscii]
        cases nextName? first.2 with
        | none => rfl
        | some second =>
          simp only [Option.map_some, nextName?_upperAscii]
          cases nextName? second.2 <;> rfl

theorem isOneOf_upperAscii (words : List Text) : isOneOf words (upperAscii t) = isOneOf words t := by
  simp only [isOneOf, sameIgnoringCase_upperAscii]

theorem isProcedureName_upperAscii : isProcedureName (upperAscii t) = isProcedureName t := by
  simp only [isProcedureName, isOneOf_upperAscii, all_upperAscii caseless_isDigit]

theorem range?_upper (w : PerformWords) : w.upper.range? = w.range?.map (PerformRange.relabel .upper) := by
  obtain ⟨gap, first, second, third⟩ := w
  have lineEnd : (upperAscii gap).contains '\n' = gap.contains '\n' := contains_upperAscii rfl
  simp only [PerformWords.range?, PerformWords.upper, lineEnd, isProcedureName_upperAscii]
  split
  · rfl
  · cases second with
    | none => rfl
    | some second =>
      simp only [Option.map_some, isOneOf_upperAscii]
      split
      · rfl
      · split <;> rfl

theorem performRange?_upperAscii :
    performRange? (upperAscii t) = (performRange? t).map (PerformRange.relabel .upper) := by
  rw [performRange?, performRange?, mask_upperAscii, search_upperAscii _ performWords?_upperAscii]
  cases search performWords? (Literal.mask t) with
  | none => rfl
  | some words => exact range?_upper words

theorem goToWord?_upperAscii : goToWord? (upperAscii t) = (goToWord? t).map upperAscii := by
  simp only [goToWord?, afterKeyword?_upperAscii, Option.bind_eq_bind]
  cases afterKeyword? "GO".toList t with
  | none => rfl
  | some rest =>
    simp only [Option.map_some, Option.bind_some, skipBlanks?_upperAscii]
    cases skipBlanks? rest with
    | none => rfl
    | some rest =>
      have after : (afterKeyword? "TO".toList (upperAscii rest)).bind nextName? =
          ((afterKeyword? "TO".toList rest).bind nextName?).map fun (name, rest) => (upperAscii name, upperAscii rest) := by
        rw [afterKeyword?_upperAscii]
        cases afterKeyword? "TO".toList rest with
        | none => rfl
        | some left => exact nextName?_upperAscii left
      simp only [Option.map_some, Option.bind_some, after]
      cases (afterKeyword? "TO".toList rest).bind nextName? with
      | some found => rfl
      | none =>
        simp only [Option.map_none, name?_upperAscii]
        cases name? rest <;> rfl

theorem goToTarget?_upperAscii : goToTarget? (upperAscii t) = (goToTarget? t).map upperAscii := by
  rw [goToTarget?, goToTarget?, mask_upperAscii, search_upperAscii _ goToWord?_upperAscii]
  cases search goToWord? (Literal.mask t) with
  | none => rfl
  | some word =>
    simp only [Option.map_some, isOneOf_upperAscii]
    split <;> rfl

end Statements

/-! ## Programs -/

/-- A code line reads the same in upper case. -/
theorem readsAs_upperAscii (code : Text) : ReadsAs .upper code (upperAscii code) where
  header := header?_upperAscii code
  levelAndName := levelAndName?_upperAscii code
  picture := picture?_upperAscii code
  paragraph := paragraphHeader?_upperAscii code
  call := callTarget?_upperAscii code
  perform := performRange?_upperAscii code
  goTo := goToTarget?_upperAscii code
  ends := getLast?_upperAscii_beq code rfl

/-- **COBOL is read in any letter case.**  With all letters of ASCII in upper case a text makes the program that it
made before, where the names that are kept as they were written are in upper case: those of items, paragraphs and
targets, pictures, and the program's own if it is declared.  The entry paragraph keeps its name, and everything
else is the same: divisions, sections, levels, lines and the kinds of statements. -/
theorem ofSource_upperAscii (path : Path) (text : Text) :
    Program.ofSource path (upperAscii text) = (Program.ofSource path text).relabel .upper := by
  have last (l : LineNumber) : l ≤ UInt32.ofNat (2 ^ 32 - 1) := by
    rw [UInt32.le_iff_toNat_le, toNat_number (by decide)]
    have := l.toNat_lt
    omega
  exact ofSource_relabel (upper_lawful _) rfl path upperAscii (codeLines_upperAscii text)
    (fun c _ => readsAs_upperAscii c.2) fun c _ => last c.1

end Source

end CobolAtlas
