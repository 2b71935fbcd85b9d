/-
# CobolAtlas.Proofs.Source.MaskedItem -- what literals hold does not matter to data items

The items of the data division are looked for in the text of a line and not in its mask.  So a comment mark or a PIC
clause inside a literal is taken for a real one.  A line is a `PlainLine` if neither the comment nor the first PIC
clause on it begins inside a literal.  For plain lines the search for a picture finds the same as in the mask
(`search_mask`), and cutting off the comment and the blanks commutes with masking (`beforeComment_mask`, `trim_mask`).

The main statement is `dataSections_of_mask`: plain lines with the same mask give the same items, which are those of the
mask.  It does not hold of all lines, since a PIC inside a literal makes an item (`dataSections_inLiteral`).
-/
import CobolAtlas.Proofs.Source.Line
import CobolAtlas.Proofs.Source.OpenLiteral
import CobolAtlas.Source.Scan

namespace CobolAtlas.Source

set_option autoImplicit false

open Text Literal

/-! ## Searches in a mask -/

/-- The text in front of the first place where a search has an answer, and all of it where it has none. -/
def beforeFound {α : Type} (recognise : Text → Option α) : Bool → Text → Text
  | _, [] => []
  | atStart, c :: t =>
      if atStart && (recognise (c :: t)).isSome then [] else c :: beforeFound recognise (!isNameCharacter c) t

section Searches

variable {α : Type} {recognise : Text → Option α}

theorem searchFrom_eq_some_of_found {atStart : Bool} {c : Char} {t : Text}
    (found : (atStart && (recognise (c :: t)).isSome) = true) :
    searchFrom recognise atStart (c :: t) = recognise (c :: t) := by
  obtain ⟨rfl, isSome⟩ := Bool.and_eq_true_iff.1 found
  obtain ⟨a, here⟩ := Option.isSome_iff_exists.1 isSome
  simp [searchFrom, here]

theorem searchFrom_eq_of_not_found {atStart : Bool} {c : Char} {t : Text}
    (notFound : (atStart && (recognise (c :: t)).isSome) = false) :
    searchFrom recognise atStart (c :: t) = searchFrom recognise (!isNameCharacter c) t := by
  have here : (if atStart then recognise (c :: t) else none) = none := by
    cases atStart with
    | false => rfl
    | true => simpa using notFound
  rw [searchFrom, here]

variable (reads : ∀ t, recognise (mask t) = recognise t)
  (fails : ∀ c t, isNameCharacter c = false → recognise (c :: t) = none)
include reads fails

/-- The search in a mask finds the same, if no literal is open where the search in the text has its answer.  While a
literal is open, neither search finds anything. -/
theorem searchFrom_maskFrom {quote : Option Char} {atStart atStart' : Bool} {t : Text}
    (isQuote : ∀ q ∈ quote, Name.isQuote q = true) (same : quote = none → atStart' = atStart)
    (closed : openAfter quote (beforeFound recognise atStart t) = none) :
    searchFrom recognise atStart' (maskFrom quote t) = searchFrom recognise atStart t := by
  induction t generalizing quote atStart atStart' with
  | nil =>
    rw [same closed]
    rfl
  | cons c t ih =>
    cases found : atStart && (recognise (c :: t)).isSome with
    | true =>
      rw [beforeFound, found] at closed
      obtain rfl : quote = none := closed
      obtain rfl := same rfl
      have inMask : recognise (c :: maskFrom (next none c) t) = recognise (c :: t) := reads (c :: t)
      have foundToo : (atStart' && (recognise (c :: maskFrom (next none c) t)).isSome) = true := by rw [inMask, found]
      exact (searchFrom_eq_some_of_found foundToo).trans (inMask.trans (searchFrom_eq_some_of_found found).symm)
    | false =>
      rw [beforeFound, found] at closed
      have goesOn : openAfter (next quote c) (beforeFound recognise (!isNameCharacter c) t) = none := closed
      have isQuote' := isQuote_of_mem_next isQuote c
      rw [searchFrom_eq_of_not_found found]
      cases quote with
      | none =>
        have inMask : recognise (c :: maskFrom (next none c) t) = recognise (c :: t) := reads (c :: t)
        have notFound : (atStart' && (recognise (c :: maskFrom (next none c) t)).isSome) = false := by
          rw [inMask, same rfl, found]
        exact (searchFrom_eq_of_not_found notFound).trans (ih isQuote' (fun _ => rfl) goesOn)
      | some q =>
        by_cases ends : c = q ∨ c = '\n'
        · have stop : isNameCharacter c = false := by
            rcases ends with rfl | rfl
            · exact spares_isNameCharacter c (isQuote c rfl)
            · decide
          have notFound : (atStart' && (recognise (c :: maskFrom none t)).isSome) = false := by
            rw [fails c _ stop, Option.isSome_none, Bool.and_false]
          rw [next_some_ends ends] at goesOn isQuote'
          rw [maskFrom_some_ends ends, searchFrom_eq_of_not_found notFound]
          exact ih isQuote' (fun _ => rfl) goesOn
        · obtain ⟨notQuote, notEnd⟩ := not_or.1 ends
          obtain ⟨stays, blanks⟩ := next_some notQuote notEnd
          have blankFails : ∀ d ∈ List.replicate c.utf8Size ' ', ∀ rest, recognise (d :: rest) = none := by
            intro d member rest
            rw [List.eq_of_mem_replicate member]
            exact fails ' ' rest (by decide)
          rw [maskFrom, blanks, searchFrom_append recognise blankFails]
          rw [stays] at goesOn isQuote' ⊢
          exact ih isQuote' (fun isNone => by cases isNone) goesOn

theorem search_mask {t : Text} (closed : openAfter none (beforeFound recognise true t) = none) :
    search recognise (mask t) = search recognise t :=
  searchFrom_maskFrom reads fails (fun q opened => by cases opened) (fun _ => rfl) closed

end Searches

/-! ## Data descriptions -/

theorem spares_isPictureCharacter : Spares isPictureCharacter := spares_of_quotes (by decide) (by decide)

theorem spares_isDecimalDigit : Spares isDecimalDigit := spares_of_quotes (by decide) (by decide)

theorem pictureRun?_mask (t : Text) : pictureRun? (mask t) = pictureRun? t := by
  rw [pictureRun?, pictureRun?, skipBlanks?_mask]
  cases skipBlanks? t with
  | none => rfl
  | some rest =>
    simp only [Option.map_some, Option.getD_some, takeWhile_mask spares_isPictureCharacter]

/-- A clause stands outside literals where it begins there. -/
theorem pictureClause?_mask (t : Text) : pictureClause? (mask t) = pictureClause? t := by
  have pic : isKeyword "PIC".toList = true := by decide
  have ture : isKeyword "TURE".toList = true := by decide
  have is : isKeyword "IS".toList = true := by decide
  rw [pictureClause?, pictureClause?, afterKeyword?_mask t pic]
  cases afterKeyword? "PIC".toList t with
  | none => rfl
  | some rest =>
    have word : (afterKeyword? "TURE".toList (mask rest)).getD (mask rest) =
        mask ((afterKeyword? "TURE".toList rest).getD rest) := by
      rw [afterKeyword?_mask rest ture]
      cases afterKeyword? "TURE".toList rest <;> rfl
    simp only [Option.map_some, Option.bind_eq_bind, Option.bind_some, word, pictureRun?_mask, skipBlanks?_mask]
    generalize (afterKeyword? "TURE".toList rest).getD rest = rest
    have afterIs : ((skipBlanks? rest).map mask).bind (afterKeyword? "IS".toList) =
        ((skipBlanks? rest).bind (afterKeyword? "IS".toList)).map mask := by
      cases skipBlanks? rest with
      | none => rfl
      | some rest => exact afterKeyword?_mask rest is
    rw [afterIs]
    cases (skipBlanks? rest).bind (afterKeyword? "IS".toList) with
    | none => rfl
    | some rest => simp only [Option.map_some, Option.bind_some, pictureRun?_mask]

theorem pictureClause?_of_stop {c : Char} (stop : isNameCharacter c = false) (t : Text) : pictureClause? (c :: t) = none := by
  have other : letterStandsFor 'P' c = false := by
    rw [Bool.eq_false_iff]
    intro stands
    rw [isNameCharacter_of_letterStandsFor (by decide) stands] at stop
    cases stop
  have passed : afterKeyword? "PIC".toList (c :: t) = none := by
    show (if letterStandsFor 'P' c then _ else none) = none
    rw [other]
    rfl
  rw [pictureClause?, passed]
  rfl

theorem levelAndName?_mask (t : Text) : levelAndName? (mask t) = levelAndName? t := by
  rw [levelAndName?, levelAndName?, takeWhile_mask spares_isDecimalDigit, dropWhile_mask spares_isDecimalDigit,
    skipBlanks?_mask]
  split
  · rfl
  · cases skipBlanks? (t.dropWhile isDecimalDigit) with
    | none => rfl
    | some rest =>
      simp only [Option.map_some, Option.bind_eq_bind, Option.bind_some, name?_mask]
      cases name? rest <;> rfl

/-- Does no literal hold the beginning of the first PIC clause? -/
def ClauseOutside (code : Text) : Prop := openAfter none (beforeFound pictureClause? true code) = none

instance (code : Text) : Decidable (ClauseOutside code) := inferInstanceAs (Decidable (_ = _))

/-- The item on a line is the item on its mask. -/
theorem dataItem?_mask {code : Text} (clause : ClauseOutside code) (line : LineNumber) :
    dataItem? line (mask code) = dataItem? line code := by
  rw [dataItem?, dataItem?, levelAndName?_mask, picture?, picture?,
    search_mask pictureClause?_mask (fun c t stop => pictureClause?_of_stop stop t) clause]

/-! ## Cutting -/

section Cutting

variable {t : Text}

/-- A comment begins in the mask where it begins in the text, if no literal is open there. -/
theorem beforeComment_maskFrom {quote : Option Char} (isQuote : ∀ q ∈ quote, Name.isQuote q = true)
    (closed : openAfter quote (beforeComment t) = none) :
    beforeComment (maskFrom quote t) = maskFrom quote (beforeComment t) := by
  induction t generalizing quote with
  | nil => rfl
  | cons c t ih =>
    rw [beforeComment_cons] at closed ⊢
    split at closed
    · rename_i mark
      obtain ⟨rfl, follows⟩ := mark
      obtain rfl : quote = none := closed
      rw [if_pos ⟨rfl, follows⟩]
      show beforeComment ('*' :: mask t) = []
      rw [beforeComment_cons, if_pos ⟨rfl, (head?_mask t).trans follows⟩]
    · rename_i noMark
      rw [if_neg noMark]
      have rest := ih (isQuote_of_mem_next isQuote c) closed
      cases quote with
      | none =>
        have noMarkShown : ¬ (c = '*' ∧ (maskFrom (next none c) t).head? = some '>') := by
          rintro ⟨rfl, follows⟩
          exact noMark ⟨rfl, (head?_mask t).symm.trans follows⟩
        show beforeComment (c :: maskFrom (next none c) t) = c :: maskFrom (next none c) (beforeComment t)
        rw [beforeComment_cons, if_neg noMarkShown, rest]
      | some q =>
        by_cases ends : c = q ∨ c = '\n'
        · have notStar : c ≠ '*' := by
            rintro rfl
            rcases ends with rfl | newline
            · exact absurd (isQuote '*' rfl) (by decide)
            · exact absurd newline (by decide)
          rw [next_some_ends ends] at rest
          rw [maskFrom_some_ends ends, maskFrom_some_ends ends, beforeComment_cons, if_neg fun mark => notStar mark.1,
            rest]
        · obtain ⟨notQuote, notEnd⟩ := not_or.1 ends
          rw [maskFrom, maskFrom, (next_some notQuote notEnd).2, beforeComment_blanks_append, rest]

theorem beforeComment_mask (closed : openAfter none (beforeComment t) = none) :
    beforeComment (mask t) = mask (beforeComment t) :=
  beforeComment_maskFrom (fun q opened => by cases opened) closed

/-- On one line, no literal is open before the blanks at the end if none is open behind them. -/
theorem trimEnd_mask (closed : openAfter none t = none) (oneLine : '\n' ∉ t) : trimEnd (mask t) = mask (trimEnd t) := by
  obtain ⟨cut, split, blank, last⟩ := exists_dropEndWhile_append isBlank t
  have closed' : openAfter none (dropEndWhile isBlank t) = none := by
    cases isOpen : openAfter none (dropEndWhile isBlank t) with
    | none => rfl
    | some q =>
      rw [split, openAfter_append, isOpen] at closed
      rcases quote_of_openAfter isOpen with opened | ⟨quote, -⟩
      · cases opened
      · have noQuote : q ∉ cut := by
          intro member
          have notBlank := spares_isBlank q quote
          rw [blank q member] at notBlank
          cases notBlank
        have sameLine : '\n' ∉ cut := by
          intro member
          rw [split] at oneLine
          exact oneLine (List.mem_append_right _ member)
        rw [openAfter_some noQuote sameLine] at closed
        cases closed
  have masked : mask t = mask (dropEndWhile isBlank t) ++ cut := by
    have whole := maskFrom_append none (dropEndWhile isBlank t) cut
    rw [← split, closed'] at whole
    rw [mask, whole]
    exact congrArg _ (mask_eq_self (spares_isBlank.noQuote blank))
  rw [trimEnd, masked, dropEndWhile_append blank, trimEnd]
  apply dropEndWhile_eq_self
  rwa [getLast?_mask closed']

theorem trim_mask (closed : openAfter none t = none) (oneLine : '\n' ∉ t) : trim (mask t) = mask (trim t) := by
  have split : t.takeWhile isBlank ++ trimStart t = t := List.takeWhile_append_dropWhile
  have plain : ∀ c ∈ t.takeWhile isBlank, Name.isQuote c = false :=
    spares_isBlank.noQuote fun c member => List.mem_takeWhile_imp member
  have closed' : openAfter none (trimStart t) = none := by
    rwa [← split, openAfter_append, openAfter_of_noQuote plain] at closed
  have sameLine : '\n' ∉ trimStart t := fun member => oneLine ((List.dropWhile_suffix isBlank).subset member)
  rw [trim, trimStart_mask, trimEnd_mask closed' sameLine, trim]

end Cutting

/-! ## Lines -/

/-- A line of free format on which neither the comment nor the first PIC clause begins inside a literal. -/
structure PlainLine (line : Text) : Prop where
  free : Layout.ofLine line = .free line
  oneLine : '\n' ∉ line
  comment : openAfter none (beforeComment line) = none
  clause : ∀ code, code? line = some code → ClauseOutside code

variable {line line' code code' : Text}

/-- The code of a plain line under its mask is the code of the mask. -/
theorem code?_map_mask (plain : PlainLine line) :
    (code? line).map mask =
      if (trimStart (mask line)).head? = some '*' ∨ (trimStart (mask line)).head? = some '/' then none
      else if (trim (beforeComment (mask line))).isEmpty then none else some (trim (beforeComment (mask line))) := by
  have sameLine : '\n' ∉ beforeComment line := fun member => plain.oneLine (mem_of_mem_beforeComment member)
  have trimmed : trim (beforeComment (mask line)) = mask (trim (beforeComment line)) := by
    rw [beforeComment_mask plain.comment, trim_mask plain.comment sameLine]
  have empty : (mask (trim (beforeComment line))).isEmpty = (trim (beforeComment line)).isEmpty := by
    rw [Bool.eq_iff_iff, List.isEmpty_iff, List.isEmpty_iff, mask_eq_nil_iff]
  rw [trimStart_mask, head?_mask, trimmed, empty, code?, codeArea, plain.free]
  simp only
  split
  · rfl
  · rw [Option.bind_some]
    split <;> rfl

theorem code?_of_mask (plain : PlainLine line) (plain' : PlainLine line') (same : mask line = mask line') :
    (code? line).map mask = (code? line').map mask := by
  rw [code?_map_mask plain, code?_map_mask plain', same]

/-! ## Scans -/

/-- A line with a PROGRAM-ID has no level. -/
theorem dataItem?_eq_none_of_programId {name : Text} (declared : programIdName? code = some name) (n : LineNumber) :
    dataItem? n code = none := by
  have keyword : "PROGRAM-ID".toList = 'P' :: "ROGRAM-ID".toList := rfl
  rw [programIdName?, keyword] at declared
  cases code with
  | nil => cases declared
  | cons c code =>
    have stands : letterStandsFor 'P' c = true := by
      cases stands : letterStandsFor 'P' c with
      | true => rfl
      | false => simp [afterKeyword?, stands] at declared
    have ascii : c.toNat < 128 := ascii_of_spells (k := ['P']) (w := [c]) rfl (by decide) (by decide)
      (by rw [spells_iff, afterKeyword?, if_pos stands]; rfl) c List.mem_cons_self
    have noDigit : isDecimalDigit c = false := by
      revert stands
      exact of_ascii (P := fun c => letterStandsFor 'P' c = true → isDecimalDigit c = false) (by decide) ascii
    simp [dataItem?, levelAndName?, noDigit]

theorem dataSections_setProgramId (a : Assembly) (name : Text) : (a.setProgramId name).dataSections = a.dataSections := by
  unfold Assembly.setProgramId
  dsimp only
  split <;> rfl

/-- In the data division a code line adds its item, if it is no header of a division or section. -/
theorem dataSections_advance {s : Scan} (inData : s.assembly.division = some "DATA".toList) (n : LineNumber)
    (noDivision : divisionName? code = none) (noSection : sectionName? code = none) :
    (s.advance (n, code)).assembly.dataSections =
      (s.assembly.run ((dataItem? n code).map Event.dataItem).toList).dataSections := by
  simp only [Scan.advance, lineEvents, header?, noDivision, noSection, inData]
  cases declared : programIdName? code with
  | none => rfl
  | some name =>
    rw [dataItem?_eq_none_of_programId declared]
    exact dataSections_setProgramId s.assembly name

/-- Code lines with one mask give the same items, if the first PIC clause of each begins outside literals. -/
theorem dataSections_advance_of_mask {s : Scan} (inData : s.assembly.division = some "DATA".toList) (n : LineNumber)
    (clause : ClauseOutside code) (clause' : ClauseOutside code') (same : mask code = mask code') :
    (s.advance (n, code)).assembly.dataSections = (s.advance (n, code')).assembly.dataSections := by
  have division : divisionName? code' = divisionName? code := by
    rw [← divisionName?_mask, ← same, divisionName?_mask]
  have section' : sectionName? code' = sectionName? code := by
    rw [← sectionName?_mask, ← same, sectionName?_mask]
  have item : dataItem? n code' = dataItem? n code := by
    rw [← dataItem?_mask clause', ← same, dataItem?_mask clause]
  cases named : divisionName? code with
  | some name => simp only [Scan.advance, lineEvents, header?, division, named]
  | none =>
    cases headed : sectionName? code with
    | some name => simp only [Scan.advance, lineEvents, header?, division, section', named, headed]
    | none =>
      rw [dataSections_advance inData n named headed,
        dataSections_advance inData n (division.trans named) (section'.trans headed), item]

/-- **What literals hold does not matter to data items.**  Let two lines of the data division be plain, and let them
differ inside literals only.  Then the data sections have the same items after the one as after the other: both lines
are descriptions with the same level, name and picture, or neither is one.  The item of a plain line is that of its
mask, so nothing of it comes from inside a literal. -/
theorem dataSections_of_mask {s : Scan} (inData : s.assembly.division = some "DATA".toList) (plain : PlainLine line)
    (plain' : PlainLine line') (same : mask line = mask line') (n : Nat) :
    ((numberedCode n [line]).foldl Scan.advance s).assembly.dataSections =
        ((numberedCode n [line']).foldl Scan.advance s).assembly.dataSections ∧
      ∀ code, code? line = some code → dataItem? (UInt32.ofNat n) code = dataItem? (UInt32.ofNat n) (mask code) := by
  refine ⟨?_, fun code read => (dataItem?_mask (plain.clause code read) _).symm⟩
  have masks := code?_of_mask plain plain' same
  simp only [numberedCode, List.append_nil]
  cases read : code? line with
  | none =>
    rw [read, eq_comm, Option.map_none, Option.map_eq_none_iff] at masks
    rw [masks]
  | some code =>
    rw [read, Option.map_some, eq_comm, Option.map_eq_some_iff] at masks
    obtain ⟨code', read', same⟩ := masks
    rw [read']
    exact dataSections_advance_of_mask inData _ (plain.clause code read) (plain'.clause code' read') same.symm

/-- A data section that is open, and a description with a value. -/
def storageScan : Scan := scan ⟨"/src/VALUES.cbl".toList⟩ "DATA DIVISION.\nWORKING-STORAGE SECTION.\n".toList

def valued (clauses value : Text) : Text := "05 WS-TEXT ".toList ++ (clauses ++ ("VALUE '".toList ++ (value ++ "'.".toList)))

/-- A PIC clause in the value is none behind the real one. -/
theorem dataSections_of_mask_valued :
    let loud := valued "PIC X(5) ".toList "PIC 9".toList
    let plain := valued "PIC X(5) ".toList "ABCDE".toList
    ((numberedCode 3 [loud]).foldl Scan.advance storageScan).assembly.dataSections =
        ((numberedCode 3 [plain]).foldl Scan.advance storageScan).assembly.dataSections ∧
      (∀ code, code? loud = some code → dataItem? 3 code = dataItem? 3 (mask code)) ∧
      ((numberedCode 3 [loud]).foldl Scan.advance storageScan).assembly.dataSections =
        [⟨"WORKING-STORAGE".toList, [⟨5, "WS-TEXT".toList, some "X(5)".toList, 3⟩]⟩] := by
  intro loud plain
  have isPlain : PlainLine loud := ⟨by decide +kernel, by decide +kernel, by decide +kernel, by decide +kernel⟩
  have isPlain' : PlainLine plain := ⟨by decide +kernel, by decide +kernel, by decide +kernel, by decide +kernel⟩
  have inData : storageScan.assembly.division = some "DATA".toList := by decide +kernel
  obtain ⟨sections, item⟩ := dataSections_of_mask inData isPlain isPlain' (by decide +kernel) 3
  exact ⟨sections, item, by decide +kernel⟩

/-- A PIC inside a literal makes an item of a line that has none outside. -/
theorem dataSections_inLiteral :
    let hidden := valued [] "PIC X".toList
    let plain := valued [] "AAA X".toList
    mask hidden = mask plain ∧ Layout.ofLine hidden = .free hidden ∧ Layout.ofLine plain = .free plain ∧
      ((numberedCode 3 [hidden]).foldl Scan.advance storageScan).assembly.dataSections =
        [⟨"WORKING-STORAGE".toList, [⟨5, "WS-TEXT".toList, some "X".toList, 3⟩]⟩] ∧
      ((numberedCode 3 [plain]).foldl Scan.advance storageScan).assembly.dataSections =
        [⟨"WORKING-STORAGE".toList, []⟩] := by
  decide +kernel

end CobolAtlas.Source
