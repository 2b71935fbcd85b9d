/-
# CobolAtlas.Proofs.Source.LiteralContents -- what literals hold does not matter to procedures

Two texts have alike lines if each line of the one is that of the other, or both are in free format and differ inside
literals only (`AlikeLines`).  The scans of such texts stay alike line by line (`Scan.Alike`): a code line reports the
same headers and paragraphs, and statements that differ in the names of static CALLs at most.

The main statement is `ofSource_veil_eq`: the two programs have the same divisions and sections, and the same
paragraphs with the same extents and statements, but for the names of static CALLs.  Two things keep it from holding
of all literals, since they are looked for in the text and not in its mask.  A comment mark inside a literal cuts off
the rest of the line, and a PROGRAM-ID reads the name inside a literal (`ofSource_marked`).
-/
import CobolAtlas.Proofs.Program.Veiling
import CobolAtlas.Proofs.Source.Alike
import CobolAtlas.Proofs.Source.Division
import CobolAtlas.Source.Scan

namespace CobolAtlas.Source

set_option autoImplicit false

open Text

/-! ## Lines -/

/-- The code lines are alike, and a PROGRAM-ID stands on both or on neither. -/
structure AlikeCode (code code' : Text) : Prop where
  alike : Alike code code'
  declares : (programIdName? code).isSome = (programIdName? code').isSome

/-- The lines are in free format and alike, and a PROGRAM-ID stands on both or on neither. -/
structure AlikeFree (line line' : Text) : Prop where
  free : Layout.ofLine line = .free line
  free' : Layout.ofLine line' = .free line'
  alike : Alike line line'
  declares : ((code? line).bind programIdName?).isSome = ((code? line').bind programIdName?).isSome

/-- The lines are the same, or they are in free format and alike. -/
def AlikeLines (line line' : Text) : Prop := line = line' ∨ AlikeFree line line'

section Lines

variable {line line' code code' : Text}

theorem AlikeCode.refl (code : Text) : AlikeCode code code := ⟨.same code, rfl⟩

theorem codeArea_alike (free : AlikeFree line line') : Option.Rel Alike (codeArea line) (codeArea line') := by
  have first := (free.alike.dropWhile Literal.spares_isBlank).head?_eq
  have start : (trimStart line).head? = (trimStart line').head? := first
  rw [codeArea, codeArea, free.free, free.free']
  simp only [start]
  split
  · exact .none
  · exact .some free.alike.beforeComment

/-- Alike lines are code lines together, and then their codes are alike. -/
theorem code?_alike (alike : AlikeLines line line') : Option.Rel AlikeCode (code? line) (code? line') := by
  rcases alike with rfl | free
  · cases code? line with
    | none => exact .none
    | some code => exact .some (.refl code)
  · have declares := free.declares
    have areas := codeArea_alike free
    unfold code? at declares ⊢
    generalize codeArea line = area, codeArea line' = area' at areas declares ⊢
    cases areas with
    | none => exact .none
    | some alike =>
      have trimmed := alike.trim
      simp only [Option.bind_some, trimmed.isEmpty_eq] at declares ⊢
      split
      · exact .none
      · rename_i nonempty
        simp only [nonempty] at declares
        exact .some ⟨trimmed, declares⟩

theorem numberedCode_alike {lines lines' : List Text} (alike : List.Forall₂ AlikeLines lines lines') (first : Nat) :
    List.Forall₂ (fun c c' => c.1 = c'.1 ∧ AlikeCode c.2 c'.2) (numberedCode first lines) (numberedCode first lines') := by
  induction alike generalizing first with
  | nil => exact .nil
  | @cons line line' lines lines' here rest ih =>
    rw [numberedCode, numberedCode]
    have codes := code?_alike here
    generalize code? line = code, code? line' = code' at codes ⊢
    cases codes with
    | none => exact ih (first + 1)
    | some codes => exact .cons ⟨rfl, codes⟩ (ih (first + 1))

end Lines

/-! ## Events -/

section Events

variable {code code' : Text}

theorem divisionName?_alike (alike : Alike code code') : divisionName? code = divisionName? code' := by
  rw [← divisionName?_mask, alike.mask_eq, divisionName?_mask]

theorem sectionName?_alike (alike : Alike code code') : sectionName? code = sectionName? code' := by
  rw [← sectionName?_mask, alike.mask_eq, sectionName?_mask]

theorem paragraphName?_alike (alike : Alike code code') : paragraphName? code = paragraphName? code' := by
  rw [← paragraphName?_mask, alike.mask_eq, paragraphName?_mask]

theorem statements_veil (alike : Alike code code') (line : LineNumber) :
    (statements line code).map Statement.veil = (statements line code').map Statement.veil := by
  have calls (code : Text) :
      ((callTarget? code).map fun t => (⟨.call, t.program, none, line, t.dynamic⟩ : Statement)).toList.map Statement.veil =
        (((callTarget? code).map CallTarget.veil).map fun t =>
          (⟨.call, t.program, none, line, t.dynamic⟩ : Statement)).toList := by
    cases callTarget? code with
    | none => rfl
    | some target =>
      obtain ⟨program, dynamic⟩ := target
      cases dynamic <;> rfl
  rw [statements, statements, List.map_append, List.map_append, calls, alike.callTarget?_veil, ← calls,
    alike.performRange?_eq, alike.goToTarget?_eq, List.map_append, List.map_append]

theorem procedureEvents_veil (alike : Alike code code') (sentenceStart : Bool) (line : LineNumber) :
    (procedureEvents sentenceStart line code).map Event.veil =
      (procedureEvents sentenceStart line code').map Event.veil := by
  have header : paragraphHeader? sentenceStart code = paragraphHeader? sentenceStart code' := by
    rw [paragraphHeader?, paragraphHeader?, paragraphName?_alike alike]
  have stated (code : Text) : ((statements line code).map Event.statement).map Event.veil =
      ((statements line code).map Statement.veil).map Event.statement := by
    rw [List.map_map, List.map_map]
    rfl
  rw [procedureEvents, procedureEvents, header]
  split
  · rfl
  · rw [List.map_append, List.map_append, stated, statements_veil alike, stated]

/-- The lines are the same header or none, but that the names after PROGRAM-ID may differ. -/
theorem header?_alike (alike : AlikeCode code code') :
    header? code = header? code' ∨
      ∃ name name', header? code = some (.programId name) ∧ header? code' = some (.programId name') := by
  have declares := alike.declares
  rw [header?, header?, divisionName?_alike alike.alike, sectionName?_alike alike.alike]
  cases divisionName? code' with
  | some name => exact .inl rfl
  | none =>
    cases sectionName? code' with
    | some name => exact .inl rfl
    | none =>
      generalize programIdName? code = declared, programIdName? code' = declared' at declares ⊢
      cases declared with
      | none =>
        obtain rfl : declared' = none := by simpa using declares.symm
        exact .inl rfl
      | some name =>
        obtain ⟨name', rfl⟩ := Option.isSome_iff_exists.1 declares.symm
        exact .inr ⟨name, name', rfl, rfl⟩

theorem item_notMem_procedureEvents {sentenceStart : Bool} {line : LineNumber} {item : DataItem} :
    Event.dataItem item ∉ procedureEvents sentenceStart line code := by
  rw [procedureEvents]
  split <;> simp

end Events

/-! ## Scans -/

/-- Where a paragraph is open, the procedure division is current. -/
def OpensInProcedure (a : Assembly) : Prop :=
  a.openParagraph.isSome = true → a.division = some "PROCEDURE".toList

section Scans

open Assembly

variable {a b : Assembly} {line : LineNumber} {code code' : Text} {sentenceStart : Bool}

theorem opensInProcedure_of_none (isClosed : a.openParagraph = none) : OpensInProcedure a := by
  intro isOpen
  rw [isClosed] at isOpen
  cases isOpen

/-- In the data division no paragraph is open. -/
theorem OpensInProcedure.eq_none (opens : OpensInProcedure a) (inData : a.division = some "DATA".toList) :
    a.openParagraph = none := by
  rw [← Option.not_isSome_iff_eq_none]
  intro isOpen
  have division := opens isOpen
  rw [inData] at division
  exact absurd division (by decide)

theorem openParagraph_addDataItem (a : Assembly) (item : DataItem) :
    (a.addDataItem item).openParagraph = a.openParagraph := by
  unfold addDataItem
  split <;> rfl

theorem step_header_opens (opens : OpensInProcedure a) (header : Header) :
    OpensInProcedure (a.step (header.event line)) := by
  cases header with
  | division name => exact opensInProcedure_of_none (closed_openParagraph a)
  | sectionHead name =>
    simp only [Header.event, step, enterSection]
    split
    · exact opens
    · split
      · exact opensInProcedure_of_none (closed_openParagraph a)
      · exact opens
  | programId name =>
    simp only [Header.event, step, setProgramId]
    generalize Name.clean name = id
    split <;> exact opens

/-- Whatever the line is, a paragraph is open after it in the procedure division only. -/
theorem run_lineEvents_opens (opens : OpensInProcedure a) :
    OpensInProcedure (a.run (lineEvents a.division sentenceStart line code)) := by
  have report := report_lineEvents a.division sentenceStart line code
  generalize lineEvents a.division sentenceStart line code = events at report ⊢
  cases report with
  | header h => exact step_header_opens opens h
  | item item noHeader inData =>
    exact opensInProcedure_of_none ((openParagraph_addDataItem a item).trans (opens.eq_none inData))
  | paragraph name noHeader inProcedure | statements noHeader inProcedure =>
    exact fun _ => (run_divisions fun name l => by simp).2.trans inProcedure
  | silent => exact opens

/-- Assemblies that look the same still look so after lines that are alike. -/
theorem run_lineEvents_veil (same : a.veil = b.veil) (opens : OpensInProcedure a) (opens' : OpensInProcedure b)
    (alike : AlikeCode code code') :
    (a.run (lineEvents a.division sentenceStart line code)).veil =
      (b.run (lineEvents b.division sentenceStart line code')).veil := by
  have division : b.division = a.division := (congrArg Assembly.division same).symm
  rw [division]
  unfold lineEvents
  rcases header?_alike alike with header | ⟨name, name', named, named'⟩
  · rw [header]
    cases header? code' with
    | some header =>
      exact run_veil_congr same rfl (by cases header <;> simp [Header.event]) (by cases header <;> simp [Header.event])
    | none =>
      dsimp only
      split
      · rename_i inData
        have items (c : Assembly) (isClosed : c.openParagraph = none) (described : Option DataItem) :
            (c.run (described.map Event.dataItem).toList).veil = c.veil := by
          cases described with
          | none => rfl
          | some item => exact addDataItem_veil isClosed item
        rw [items a (opens.eq_none inData), items b (opens'.eq_none (division.trans inData)), same]
      · split
        · exact run_veil_congr same (procedureEvents_veil alike.alike sentenceStart line)
            (fun _ => item_notMem_procedureEvents) fun _ => item_notMem_procedureEvents
        · exact same
  · rw [named, named']
    exact (setProgramId_veil a name).trans (same.trans (setProgramId_veil b name').symm)

/-- The scans show the same in their procedures. -/
structure AlikeScans (s s' : Scan) : Prop where
  assembly : s.assembly.veil = s'.assembly.veil
  sentenceStart : s.sentenceStart = s'.sentenceStart
  opens : OpensInProcedure s.assembly
  opens' : OpensInProcedure s'.assembly

theorem AlikeScans.advance {s s' : Scan} (alike : AlikeScans s s') {c c' : LineNumber × Text} (lines : c.1 = c'.1)
    (codes : AlikeCode c.2 c'.2) : AlikeScans (s.advance c) (s'.advance c') where
  assembly := by
    rw [Scan.advance, Scan.advance, alike.sentenceStart, lines]
    exact run_lineEvents_veil alike.assembly alike.opens alike.opens' codes
  sentenceStart := by rw [Scan.advance, Scan.advance, codes.alike.getLast?_eq]
  opens := run_lineEvents_opens alike.opens
  opens' := run_lineEvents_opens alike.opens'

theorem AlikeScans.foldl {s s' : Scan} (alike : AlikeScans s s') {codes codes' : List (LineNumber × Text)}
    (numbered : List.Forall₂ (fun c c' => c.1 = c'.1 ∧ AlikeCode c.2 c'.2) codes codes') :
    AlikeScans (codes.foldl Scan.advance s) (codes'.foldl Scan.advance s') := by
  induction numbered generalizing s s' with
  | nil => exact alike
  | cons here rest ih => exact ih (alike.advance here.1 here.2)

end Scans

/-- **What literals hold does not matter to procedures.**  Let two texts have alike lines.  Then their programs have
the same divisions and sections, and paragraphs of the same names, extents and statements in the same order, but that
static CALLs may name other programs. -/
theorem ofSource_veil_eq (path : Path) {text text' : Text} (alike : List.Forall₂ AlikeLines (lines text) (lines text')) :
    let p := Program.ofSource path text
    let p' := Program.ofSource path text'
    p.divisions = p'.divisions ∧ p.sections = p'.sections ∧
      p.paragraphs.map Paragraph.veil = p'.paragraphs.map Paragraph.veil ∧
        p.calls.map CallEdge.veil = p'.calls.map CallEdge.veil := by
  have start : OpensInProcedure (Assembly.start path backendName) := opensInProcedure_of_none rfl
  have scans : AlikeScans ⟨Assembly.start path backendName, true⟩ ⟨Assembly.start path backendName, true⟩ :=
    ⟨rfl, rfl, start, start⟩
  exact Assembly.finish_veil_congr (scans.foldl (numberedCode_alike alike 1)).assembly

/-- A line that shows a message, and one that calls a program and performs a paragraph. -/
def showing (message : Text) : Text := "    DISPLAY ".toList ++ '\'' :: (message ++ '\'' :: ".".toList)

def calling (program : Text) : Text := "    CALL ".toList ++ '\'' :: (program ++ '\'' :: " PERFORM LAST-PARA.".toList)

/-- A program with such lines. -/
def messenger (message program : Text) : Text :=
  joinWith ['\n'] ["PROCEDURE DIVISION.".toList, "MAIN-PARA.".toList, showing message, calling program,
    "LAST-PARA.".toList, "    GOBACK.".toList]

/-- A message with keywords, periods and the characters of a comment mark is as good as any other. -/
theorem ofSource_veil_eq_messenger :
    let path : Path := ⟨"/src/messenger.cbl".toList⟩
    let plain := messenger "WELCOME TO THE SHOP".toList "NIGHT".toList
    let loud := messenger "CALL X. GO TO Y*/>.".toList "DAY-1".toList
    List.Forall₂ AlikeLines (lines plain) (lines loud) ∧
      (Program.ofSource path plain).paragraphs.map Paragraph.veil =
        (Program.ofSource path loud).paragraphs.map Paragraph.veil ∧
      (Program.ofSource path loud).paragraphs =
        [⟨"MAIN-PARA".toList, none, 2, 4,
            [⟨.call, "DAY-1".toList, none, 4, false⟩, ⟨.perform, "LAST-PARA".toList, none, 4, false⟩]⟩,
          ⟨"LAST-PARA".toList, none, 5, 6, []⟩] := by
  intro path plain loud
  have message : Alike (showing "WELCOME TO THE SHOP".toList) (showing "CALL X. GO TO Y*/>.".toList) := by
    have exchange : Exchange "WELCOME TO THE SHOP".toList "CALL X. GO TO Y*/>.".toList :=
      ⟨by decide +kernel, by decide +kernel, .inr (by decide +kernel)⟩
    exact .prepend (by simp [Name.isQuote]) (.literal rfl ⟨by decide, by decide⟩ ⟨by decide, by decide⟩ exchange (.same _))
  have program : Alike (calling "NIGHT".toList) (calling "DAY-1".toList) := by
    have exchange : Exchange "NIGHT".toList "DAY-1".toList :=
      ⟨by decide +kernel, by decide +kernel, .inr (by decide +kernel)⟩
    exact .prepend (by simp [Name.isQuote]) (.literal rfl ⟨by decide, by decide⟩ ⟨by decide, by decide⟩ exchange (.same _))
  have alike : List.Forall₂ AlikeLines (lines plain) (lines loud) := by
    have plainLines : lines plain = ["PROCEDURE DIVISION.".toList, "MAIN-PARA.".toList,
        showing "WELCOME TO THE SHOP".toList, calling "NIGHT".toList, "LAST-PARA.".toList, "    GOBACK.".toList] := by
      decide +kernel
    have loudLines : lines loud = ["PROCEDURE DIVISION.".toList, "MAIN-PARA.".toList,
        showing "CALL X. GO TO Y*/>.".toList, calling "DAY-1".toList, "LAST-PARA.".toList, "    GOBACK.".toList] := by
      decide +kernel
    rw [plainLines, loudLines]
    refine .cons (.inl rfl) (.cons (.inl rfl) (.cons (.inr ⟨?_, ?_, message, ?_⟩) (.cons (.inr ⟨?_, ?_, program, ?_⟩)
      (.cons (.inl rfl) (.cons (.inl rfl) .nil))))) <;> decide +kernel
  exact ⟨alike, (ofSource_veil_eq path alike).2.2.1, by decide +kernel⟩

/-- Two paragraphs, the first of which shows a message. -/
def announcer (message : Text) : Text :=
  joinWith ['\n'] ["PROCEDURE DIVISION.".toList, "FIRST-PARA.".toList, showing message, "LAST-PARA.".toList,
    "    GOBACK.".toList]

/-- A paragraph and a PROGRAM-ID below it. -/
def namer (name : Text) : Text :=
  joinWith ['\n'] ["PROCEDURE DIVISION.".toList, "ONLY-PARA.".toList, "    GOBACK.".toList,
    "PROGRAM-ID. ".toList ++ '\'' :: (name ++ "'.".toList)]

/-- A comment mark in a literal hides the paragraph below its line, and a literal that begins with no name makes of a
PROGRAM-ID a line of the paragraph. -/
theorem ofSource_marked :
    let extents := fun text =>
      (Program.ofSource ⟨"/src/MARKED.cbl".toList⟩ text).paragraphs.map fun p => (p.name, p.line, p.endLine)
    let marked := announcer "A *> B".toList
    let unmarked := announcer "A xx B".toList
    let named := namer "A".toList
    let unnamed := namer "&".toList
    ((lines marked).map Literal.mask = (lines unmarked).map Literal.mask ∧
        (∀ line ∈ lines marked ++ lines unmarked, Layout.ofLine line = .free line) ∧
        extents unmarked = [("FIRST-PARA".toList, 2, 3), ("LAST-PARA".toList, 4, 5)] ∧
        extents marked = [("FIRST-PARA".toList, 2, 5)]) ∧
      (lines named).map Literal.mask = (lines unnamed).map Literal.mask ∧
        (∀ line ∈ lines named ++ lines unnamed, Layout.ofLine line = .free line) ∧
        extents named = [("ONLY-PARA".toList, 2, 3)] ∧ extents unnamed = [("ONLY-PARA".toList, 2, 4)] := by
  decide +kernel

end CobolAtlas.Source
