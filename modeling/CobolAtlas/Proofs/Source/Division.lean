/-
# CobolAtlas.Proofs.Source.Division -- which lines change the division

A code line enters a division when its first word can name one and its second word begins with DIVISION,
with no word character after it (`division_entered_iff`).  Periods at the end of the second word do not
count.  So besides the header `<name> DIVISION` there is one other kind of line: the second word goes on
after DIVISION, with a character that is no word character.  Among names that is the hyphen: a line whose
second word is `DIVISION-CODE` is read as a header, and the items below it are lost
(`division_entered_at_hyphen`).  A line that enters no division leaves the divisions as they were
(`run_divisions`).
-/
import CobolAtlas.Proofs.Program.History
import CobolAtlas.Proofs.Source.Report
import CobolAtlas.Proofs.Text.Ends
import CobolAtlas.Proofs.Text.Word
import Mathlib.Data.List.TakeWhile

namespace CobolAtlas

set_option autoImplicit false

namespace Text

/-! ## Words between blanks -/

/-- The first run of characters that are no blanks after the first such run. -/
def secondWord (t : Text) : Text := firstWord ((trimStart t).dropWhile fun c => !isBlank c)

/-- Without the periods at its end. -/
def dropPeriods (w : Text) : Text := dropEndWhile (· == '.') w

/-- Does a blank follow, or nothing? -/
def endsBlank : Text → Bool
  | [] => true
  | c :: _ => isBlank c

theorem endsName_of_endsBlank {t : Text} (ends : endsBlank t = true) : endsName t = true := by
  cases t with
  | nil => rfl
  | cons c t => simp [endsName, isNameCharacter_of_isBlank ends]

theorem endsBlank_dropWhile (t : Text) : endsBlank (t.dropWhile fun c => !isBlank c) = true := by
  induction t with
  | nil => rfl
  | cons c t ih =>
    cases blank : isBlank c with
    | true => simp [blank, endsBlank]
    | false => simpa [blank] using ih

/-- A text is its first word, then a blank or nothing. -/
theorem exists_firstWord (t : Text) : ∃ rest, trimStart t = firstWord t ++ rest ∧ endsBlank rest = true :=
  ⟨_, (List.takeWhile_append_dropWhile ..).symm, endsBlank_dropWhile _⟩

/-- A text without its final periods, and the periods. -/
theorem exists_dropPeriods (w : Text) : ∃ periods, w = dropPeriods w ++ periods ∧ ∀ c ∈ periods, c = '.' := by
  refine ⟨(w.reverse.takeWhile (· == '.')).reverse, ?_, fun c member => ?_⟩
  · rw [dropPeriods, dropEndWhile, ← List.reverse_append, List.takeWhile_append_dropWhile, List.reverse_reverse]
  · have isPeriod : (c == '.') = true := List.mem_takeWhile_imp (p := (· == '.')) (List.mem_reverse.1 member)
    exact beq_iff_eq.1 isPeriod

theorem trimStart_trimStart (t : Text) : trimStart (trimStart t) = trimStart t := by
  refine dropWhile_eq_self fun c first => ?_
  have passed := List.head?_dropWhile_not isBlank t
  rw [show (t.dropWhile isBlank).head? = some c from first] at passed
  exact passed

section Leading

variable {c : Char} {w rest : Text} (word : IsWord (c :: w)) (ends : endsBlank rest = true)
include word ends

/-- A word before a blank is the first one. -/
theorem firstWord_append : firstWord (c :: w ++ rest) = c :: w := by
  have notBlank : ∀ d ∈ c :: w, (!isBlank d) = true := fun d member => by
    rw [isBlank_of_isNameCharacter (word d member), Bool.not_false]
  have stop : rest.takeWhile (fun d => !isBlank d) = [] := by
    cases rest with
    | nil => rfl
    | cons d rest => simp [show isBlank d = true from ends]
  rw [firstWord, List.cons_append, trimStart_cons_of_not_blank (isBlank_of_isNameCharacter word.head),
    ← List.cons_append, List.takeWhile_append_of_pos notBlank, stop, List.append_nil]

theorem secondWord_append : secondWord (c :: w ++ rest) = firstWord rest := by
  have notBlank : ∀ d ∈ c :: w, (!isBlank d) = true := fun d member => by
    rw [isBlank_of_isNameCharacter (word d member), Bool.not_false]
  have stop : rest.dropWhile (fun d => !isBlank d) = rest := by
    cases rest with
    | nil => rfl
    | cons d rest => simp [show isBlank d = true from ends]
  rw [secondWord, List.cons_append, trimStart_cons_of_not_blank (isBlank_of_isNameCharacter word.head),
    ← List.cons_append, List.dropWhile_append_of_pos notBlank, stop]

end Leading

/-- A trimmed text starts with no blank. -/
theorem trimStart_trim (t : Text) : trimStart (trim t) = trim t := by
  obtain ⟨rest, whole⟩ : trim t <+: trimStart t := by
    rw [trim, trimEnd, dropEndWhile, ← List.reverse_suffix, List.reverse_reverse]
    exact List.dropWhile_suffix isBlank
  cases trimmed : trim t with
  | nil => rfl
  | cons c u =>
    have again := trimStart_trimStart t
    rw [← whole, trimmed, List.cons_append] at again
    cases blank : isBlank c with
    | false => exact trimStart_cons_of_not_blank blank u
    | true =>
      rw [trimStart_cons_of_blank blank] at again
      have shorter := (List.dropWhile_suffix (l := u ++ rest) isBlank).length_le
      rw [show (u ++ rest).dropWhile isBlank = c :: (u ++ rest) from again] at shorter
      exact absurd shorter (by simp)

/-! ## What is passed -/

theorem exists_cons_of_skipBlanks? {t rest : Text} (passed : skipBlanks? t = some rest) :
    ∃ c t', t = c :: t' ∧ isBlank c = true ∧ rest = trimStart t' := by
  cases t with
  | nil => cases passed
  | cons c t =>
    rw [skipBlanks?] at passed
    split at passed
    · rename_i blank
      exact ⟨c, t, rfl, blank, (Option.some.inj passed).symm⟩
    · cases passed

end Text

namespace Source

open Text

/-! ## Headers -/

/-- Can the word name a division?  It is a run of name characters and starts with a word character. -/
structure IsHeaderName (w : Text) : Prop where
  isWord : IsWord w
  head : w.head?.any isWordCharacter = true

theorem IsHeaderName.exists_cons {w : Text} (header : IsHeaderName w) :
    ∃ c v, w = c :: v ∧ isWordCharacter c = true := exists_cons_of_head?_any header.head

/-- The name of a header is a word with a blank after it. -/
theorem exists_of_headerName? {code name after : Text} (found : headerName? code = some (name, after)) :
    IsHeaderName name ∧ ∃ c rest, code = name ++ c :: rest ∧ isBlank c = true ∧ after = trimStart rest := by
  simp only [headerName?, Option.bind_eq_bind, Option.bind_eq_some_iff, Prod.exists] at found
  obtain ⟨w, rest, read, found⟩ := found
  obtain ⟨rfl, -, word⟩ := of_name? read
  cases w with
  | nil => cases found
  | cons d w =>
    simp only at found
    split at found
    · rename_i start
      obtain ⟨after', passed, same⟩ := Option.map_eq_some_iff.1 found
      obtain ⟨rfl, rfl⟩ := Prod.mk.inj same
      obtain ⟨c, rest, rfl, blank, rfl⟩ := exists_cons_of_skipBlanks? passed
      exact ⟨⟨word, start⟩, c, rest, rfl, blank, rfl⟩
    · cases found

theorem headerName?_append {name : Text} (header : IsHeaderName name) {c : Char} (blank : isBlank c = true)
    (rest : Text) : headerName? (name ++ c :: rest) = some (name, trimStart rest) := by
  obtain ⟨d, w, rfl, start⟩ := header.exists_cons
  have ends : endsName (c :: rest) = true := endsName_of_endsBlank blank
  have nonempty : d :: w ≠ [] := List.cons_ne_nil d w
  rw [headerName?, name?_append nonempty header.isWord ends]
  simp [start, skipBlanks?, blank]

/-- What does not stand for a letter does not count after a keyword: what follows a word, and the periods at
its end. -/
theorem afterKeyword?_endsWord_iff {k : Text} (keyword : isKeyword k = true) (w : Text) {rest : Text}
    (ends : endsBlank rest = true) :
    (∃ left, afterKeyword? k (w ++ rest) = some left ∧ endsWord left = true) ↔
      ∃ left, afterKeyword? k (dropPeriods w) = some left ∧ endsWord left = true := by
  obtain ⟨periods, split, all⟩ := exists_dropPeriods w
  have stop : endsName (periods ++ rest) = true := by
    cases periods with
    | nil => exact endsName_of_endsBlank ends
    | cons c periods =>
      rw [all c List.mem_cons_self]
      rfl
  have same : ∀ left, endsWord (left ++ (periods ++ rest)) = endsWord left := by
    intro left
    cases left with
    | cons c left => rfl
    | nil =>
      cases tail : periods ++ rest with
      | nil => rfl
      | cons c tail' =>
        rw [tail] at stop
        have noName : isNameCharacter c = false := by simpa [endsName] using stop
        have noWord : isWordCharacter c = false := (Bool.or_eq_false_iff.1 noName).1
        simp [endsWord, noWord]
  have passed : afterKeyword? k (w ++ rest) =
      (afterKeyword? k (dropPeriods w)).map (· ++ (periods ++ rest)) := by
    rw [← afterKeyword?_append keyword stop, ← List.append_assoc, ← split]
  rw [passed]
  cases afterKeyword? k (dropPeriods w) with
  | none => simp
  | some left => simp [same]

theorem divisionName?_append {name : Text} (header : IsHeaderName name) {c : Char} (blank : isBlank c = true)
    (rest found : Text) :
    divisionName? (name ++ c :: rest) = some found ↔
      found = name ∧
        ∃ left, afterKeyword? "DIVISION".toList (dropPeriods (firstWord rest)) = some left ∧ endsWord left = true := by
  obtain ⟨after, whole, ends⟩ := exists_firstWord rest
  rw [← afterKeyword?_endsWord_iff (by decide) (firstWord rest) ends, ← whole, divisionName?,
    headerName?_append header blank]
  simp only [Option.bind_eq_bind, Option.bind_some, Option.bind_eq_some_iff]
  constructor
  · rintro ⟨left, passed, named⟩
    split at named
    · exact ⟨(Option.some.inj named).symm, left, passed, ‹_›⟩
    · cases named
  · rintro ⟨rfl, left, passed, ends⟩
    exact ⟨left, passed, if_pos ends⟩

/-- A line that begins with no blank names a division by its first two words. -/
theorem divisionName?_eq_some_iff {code found : Text} (start : trimStart code = code) :
    divisionName? code = some found ↔
      found = firstWord code ∧ IsHeaderName (firstWord code) ∧
        ∃ left, afterKeyword? "DIVISION".toList (dropPeriods (secondWord code)) = some left ∧
          endsWord left = true := by
  -- on a line of this shape both sides speak of the same two words
  have shaped {name : Text} {c : Char} (rest : Text) (header : IsHeaderName name) (blank : isBlank c = true) :
      firstWord (name ++ c :: rest) = name ∧ secondWord (name ++ c :: rest) = firstWord rest := by
    obtain ⟨d, w, rfl, -⟩ := header.exists_cons
    have second : firstWord (c :: rest) = firstWord rest := by
      rw [firstWord, trimStart_cons_of_blank blank, firstWord]
    have ends : endsBlank (c :: rest) = true := blank
    rw [firstWord_append header.isWord ends, secondWord_append header.isWord ends, second]
    exact ⟨rfl, rfl⟩
  constructor
  · intro named
    have read := named
    simp only [divisionName?, Option.bind_eq_bind, Option.bind_eq_some_iff, Prod.exists] at read
    obtain ⟨name, after, read, -⟩ := read
    obtain ⟨header, c, rest, rfl, blank, -⟩ := exists_of_headerName? read
    obtain ⟨first, second⟩ := shaped rest header blank
    obtain ⟨rfl, division⟩ := (divisionName?_append header blank rest found).1 named
    rw [first, second]
    exact ⟨rfl, header, division⟩
  · rintro ⟨rfl, header, division⟩
    obtain ⟨after, whole, ends⟩ := exists_firstWord code
    rw [start] at whole
    cases after with
    | nil =>
      have single : secondWord code = [] := by
        obtain ⟨d, w, first, -⟩ := header.exists_cons
        rw [whole, first, secondWord_append (first ▸ header.isWord) ends]
        rfl
      rw [single] at division
      obtain ⟨left, passed, -⟩ := division
      cases passed
    | cons c rest =>
      obtain ⟨-, second⟩ := shaped rest header ends
      rw [← whole] at second
      rw [second] at division
      have named := (divisionName?_append header ends rest (firstWord code)).2 ⟨rfl, division⟩
      rwa [← whole] at named

/-- A keyword with no word character after it is the whole text, or a character that is none follows. -/
theorem exists_endsWord_iff {k w : Text} :
    (∃ left, afterKeyword? k w = some left ∧ endsWord left = true) ↔
      spells k w = true ∨ ∃ d rest, afterKeyword? k w = some (d :: rest) ∧ isWordCharacter d = false := by
  rw [spells_iff]
  constructor
  · rintro ⟨_ | ⟨d, rest⟩, passed, ends⟩
    · exact .inl passed
    · exact .inr ⟨d, rest, passed, by simpa [endsWord] using ends⟩
  · rintro (passed | ⟨d, rest, passed, stop⟩)
    · exact ⟨[], passed, rfl⟩
    · exact ⟨d :: rest, passed, by simp [endsWord, stop]⟩

/-! ## Lines that enter a division -/

theorem trimStart_of_mem_numberedCode {first : Nat} {lines : List Text} {c : LineNumber × Text}
    (member : c ∈ numberedCode first lines) : trimStart c.2 = c.2 := by
  induction lines generalizing first with
  | nil => exact absurd member List.not_mem_nil
  | cons l lines ih =>
    rw [numberedCode] at member
    rcases List.mem_append.1 member with here | later
    · obtain ⟨code, read, rfl⟩ := Option.map_eq_some_iff.1 (Option.mem_toList.1 here)
      obtain ⟨area, -, trimmed⟩ := Option.bind_eq_some_iff.1 read
      split at trimmed
      · cases trimmed
      · cases trimmed
        exact trimStart_trim area
    · exact ih later

end Source

namespace Assembly

/-- Only a division header changes the divisions. -/
theorem step_divisions {e : Event} (other : ∀ name line, e ≠ .division name line) (a : Assembly) :
    (a.step e).divisions = a.divisions := by
  have effect := step_effect a e
  generalize a.step e = b at effect ⊢
  cases effect with
  | ignored | named | counted | observed | dataSection | item => rfl
  | division name line => exact absurd rfl (other name line)
  | procedureSection name line => exact congrArg Declarations.divisions (enterProcedureSection_declarations a name line)
  | paragraph name line => exact congrArg Declarations.divisions (enterParagraph_declarations a name line)
  | entry s =>
    have opened := enterParagraph_declarations a Program.entryParagraph s.line
    exact congrArg Declarations.divisions ((appendStatement_declarations _ s).trans opened)
  | statement s => exact congrArg Declarations.divisions (appendStatement_declarations a s)

/-- Events among which no division is entered leave the divisions as they were. -/
theorem run_divisions {a : Assembly} {events : List Event} (others : ∀ name line, Event.division name line ∉ events) :
    (a.run events).divisions = a.divisions ∧ (a.run events).division = a.division := by
  induction events generalizing a with
  | nil => exact ⟨rfl, rfl⟩
  | cons e events ih =>
    have other : ∀ name line, e ≠ .division name line := fun name line same =>
      others name line (same ▸ List.mem_cons_self)
    have division : (a.step e).division = a.division := by
      rw [step_division]
      split
      · rename_i name line
        exact absurd rfl (other name line)
      · rfl
    obtain ⟨divisions', division'⟩ := ih (a := a.step e) fun name line member =>
      others name line (List.mem_cons_of_mem e member)
    exact ⟨divisions'.trans (step_divisions other a), division'.trans division⟩

end Assembly

namespace Source

open Text

/-- Does a code line report a division, where the scan has come to? -/
def Scan.EntersDivision (s : Scan) (c : LineNumber × Text) : Prop :=
  ∃ name line, .division name line ∈ lineEvents s.assembly.division s.sentenceStart c.1 c.2

/-- **What enters a division.**  A code line enters a division when its first word can name one and its
second word without final periods is DIVISION in any letter case, or goes on after it with a character that
is no word character.  Where the second word is a name, that character is the hyphen.  A line that enters
no division leaves the list of divisions and the current one as they were. -/
theorem division_entered_iff {text : Text} {c : LineNumber × Text} (member : c ∈ codeLines text) (s : Scan) :
    let second := dropPeriods (secondWord c.2)
    (s.EntersDivision c ↔
      IsHeaderName (firstWord c.2) ∧
        (spells "DIVISION".toList second = true ∨
          ∃ d rest, afterKeyword? "DIVISION".toList second = some (d :: rest) ∧ isWordCharacter d = false)) ∧
    (IsWord second →
      (s.EntersDivision c ↔
        IsHeaderName (firstWord c.2) ∧
          (spells "DIVISION".toList second = true ∨
            ∃ rest, afterKeyword? "DIVISION".toList second = some ('-' :: rest)))) ∧
    (¬ s.EntersDivision c →
      (s.advance c).assembly.divisions = s.assembly.divisions ∧
        (s.advance c).assembly.division = s.assembly.division) := by
  intro second
  have start : trimStart c.2 = c.2 := trimStart_of_mem_numberedCode member
  have entered : s.EntersDivision c ↔
      IsHeaderName (firstWord c.2) ∧
        (spells "DIVISION".toList second = true ∨
          ∃ d rest, afterKeyword? "DIVISION".toList second = some (d :: rest) ∧ isWordCharacter d = false) := by
    simp only [Scan.EntersDivision, division_mem_lineEvents_iff, divisionName?_eq_some_iff start, exists_eq_left,
      exists_endsWord_iff]
    rfl
  refine ⟨entered, fun word => ?_, fun other => ?_⟩
  · rw [entered]
    refine and_congr_right fun _ => or_congr_right ⟨?_, ?_⟩
    · rintro ⟨d, rest, passed, stop⟩
      have inName : isNameCharacter d = true := (word.of_afterKeyword? passed).head
      have hyphen : d = '-' := by simpa [isNameCharacter, stop] using inName
      exact ⟨rest, hyphen ▸ passed⟩
    · rintro ⟨rest, passed⟩
      exact ⟨'-', rest, passed, rfl⟩
  · exact Assembly.run_divisions fun name line member => other ⟨name, line, member⟩

/-- A data division with an item whose name begins with DIVISION. -/
def area : Text :=
  joinWith ['\n'] (["       IDENTIFICATION DIVISION.", "       PROGRAM-ID. AREA.", "       DATA DIVISION.",
    "       WORKING-STORAGE SECTION.", "       05 DIVISION-CODE PIC X(3).", "       05 TOTAL PIC 9(4)."].map String.toList)

/-- The scan of that text before the item. -/
def areaScan : Scan :=
  ((codeLines area).take 4).foldl Scan.advance ⟨Assembly.start ⟨"/src/AREA.cbl".toList⟩ backendName, true⟩

/-- The line of the second item enters nothing. -/
theorem division_entered_iff_total :
    (6, "05 TOTAL PIC 9(4).".toList) ∈ codeLines area ∧
      IsWord (dropPeriods (secondWord "05 TOTAL PIC 9(4).".toList)) ∧
      ¬ areaScan.EntersDivision (6, "05 TOTAL PIC 9(4).".toList) ∧
      (areaScan.advance (6, "05 TOTAL PIC 9(4).".toList)).assembly.division = areaScan.assembly.division := by
  have member : (6, "05 TOTAL PIC 9(4).".toList) ∈ codeLines area := by decide +kernel
  have word : IsWord (dropPeriods (secondWord "05 TOTAL PIC 9(4).".toList)) := by decide +kernel
  have passed : afterKeyword? "DIVISION".toList (dropPeriods (secondWord "05 TOTAL PIC 9(4).".toList)) = none := by
    decide +kernel
  obtain ⟨-, iff, kept⟩ := division_entered_iff member areaScan
  have other : ¬ areaScan.EntersDivision (6, "05 TOTAL PIC 9(4).".toList) := fun enters => by
    obtain ⟨-, whole | ⟨rest, hyphen⟩⟩ := (iff word).1 enters
    · exact absurd (passed.symm.trans (spells_iff.1 whole)) nofun
    · exact absurd (passed.symm.trans hyphen) nofun
  exact ⟨member, word, other, (kept other).2⟩

/-- The line of the first item enters a division 05, though its second word is not DIVISION; neither item of
the section is recorded. -/
theorem division_entered_at_hyphen :
    (5, "05 DIVISION-CODE PIC X(3).".toList) ∈ codeLines area ∧
      areaScan.EntersDivision (5, "05 DIVISION-CODE PIC X(3).".toList) ∧
      spells "DIVISION".toList (dropPeriods (secondWord "05 DIVISION-CODE PIC X(3).".toList)) = false ∧
      (Program.ofSource ⟨"/src/AREA.cbl".toList⟩ area).divisions = ["IDENTIFICATION", "DATA", "05"].map String.toList ∧
      (Program.ofSource ⟨"/src/AREA.cbl".toList⟩ area).dataSections = [⟨"WORKING-STORAGE".toList, []⟩] := by
  have named : divisionName? "05 DIVISION-CODE PIC X(3).".toList = some "05".toList := by decide +kernel
  refine ⟨by decide +kernel, ⟨"05".toList, 5, division_mem_lineEvents_iff.2 ⟨rfl, named⟩⟩, ?_⟩
  decide +kernel

end Source

end CobolAtlas
