/-
# CobolAtlas.Program.Assembly -- a program put together from events

Both readers of COBOL, of lines and of syntax trees, report what they see as a list of `Event`s in the
order of the file.  An `Assembly` is the state between two events: the division and data section that
are current, and the procedure section and paragraph that are open.

* A division header closes the open section and paragraph; a paragraph header or a procedure section
  closes the open paragraph.
* A paragraph ends at the last line seen while it was open (`closeParagraph`).
* A statement outside the procedure division and outside a paragraph is dropped, as is a data item
  outside a data section; in the procedure division a statement before the first paragraph opens the
  entry paragraph.
-/
import CobolAtlas.Path.Basic
import CobolAtlas.Program.Basic
import CobolAtlas.Source.Name

namespace CobolAtlas

set_option autoImplicit false

/-- What a reader of COBOL reports. -/
inductive Event where
  /-- A PROGRAM-ID. -/
  | programId (name : Text)
  | division (name : Text) (line : LineNumber)
  /-- A section header whose meaning depends on the current division. -/
  | sectionHeader (name : Text) (line : LineNumber)
  | dataSection (name : Text)
  | procedureSection (name : Text) (line : LineNumber)
  | dataItem (item : DataItem)
  | paragraph (name : Text) (line : LineNumber)
  | statement (statement : Statement)
  /-- The file has content up to a line. -/
  | observe (line : LineNumber)
  | syntaxErrors (count : UInt32)

/-- A program in the making. -/
structure Assembly where
  file : Text
  backend : Text
  id : Text
  declaresId : Bool
  divisions : List Text
  division : Option Text
  dataSections : List DataSection
  dataSection : Option Text
  closedSections : List ProcedureSection
  openSection : Option ProcedureSection
  closedParagraphs : List Paragraph
  openParagraph : Option Paragraph
  calls : List CallEdge
  syntaxErrors : Option UInt32
  lastLine : LineNumber

namespace Assembly

/-- Nothing seen yet of a file; its stem names the program. -/
def start (path : Path) (backend : Text) : Assembly where
  file := path.text
  backend := backend
  id := path.fileStem.getD []
  declaresId := false
  divisions := []
  division := none
  dataSections := []
  dataSection := none
  closedSections := []
  openSection := none
  closedParagraphs := []
  openParagraph := none
  calls := []
  syntaxErrors := none
  lastLine := 0

/-- All procedure sections so far, the open one last. -/
def sections (a : Assembly) : List ProcedureSection := a.closedSections ++ a.openSection.toList

/-- Is the procedure division current? -/
def inProcedure (a : Assembly) : Bool := a.division == some "PROCEDURE".toList

/-- There is content up to `line`. -/
def observe (line : LineNumber) (a : Assembly) : Assembly :=
  { a with lastLine := max a.lastLine line }

/-- The open paragraph ends at the last line seen. -/
def closeParagraph (a : Assembly) : Assembly :=
  match a.openParagraph with
  | none => a
  | some p =>
      { a with
        closedParagraphs := a.closedParagraphs ++ [{ p with endLine := max p.endLine a.lastLine }]
        openParagraph := none }

/-- No procedure section is open any more. -/
def closeSection (a : Assembly) : Assembly :=
  { a with closedSections := a.sections, openSection := none }

/-- The first PROGRAM-ID that is a name counts. -/
def setProgramId (name : Text) (a : Assembly) : Assembly :=
  let id := Name.clean name
  if a.declaresId || id.isEmpty then a else { a with id := id, declaresId := true }

/-- A division is listed once and becomes current. -/
def enterDivision (name : Text) (line : LineNumber) (a : Assembly) : Assembly :=
  let name := Name.ofDivision name
  let a := a.closeParagraph.closeSection
  { a with
    divisions := if name ∈ a.divisions then a.divisions else a.divisions ++ [name]
    division := some name
    dataSection := none
    lastLine := line }

/-- A data section is listed once and becomes current. -/
def enterDataSection (name : Text) (a : Assembly) : Assembly :=
  let name := Name.ofSection name
  { a with
    dataSections :=
      if a.dataSections.any (·.name == name) then a.dataSections else a.dataSections ++ [⟨name, []⟩]
    dataSection := some name }

/-- Each procedure section header opens a section, also under a name that was there before. -/
def enterProcedureSection (name : Text) (line : LineNumber) (a : Assembly) : Assembly :=
  let a := a.closeParagraph.closeSection
  { a with openSection := some ⟨Name.ofSection name, line, []⟩, lastLine := line }

/-- A section header is read as the current division has sections, and dropped where it has none. -/
def enterSection (name : Text) (line : LineNumber) (a : Assembly) : Assembly :=
  if a.division = some "DATA".toList then a.enterDataSection name
  else if a.division = some "PROCEDURE".toList then a.enterProcedureSection name line
  else a

/-- An item goes to the current data section. -/
def addDataItem (item : DataItem) (a : Assembly) : Assembly :=
  match a.dataSection with
  | none => a
  | some current =>
      let item := { item with name := Name.clean item.name }
      observe item.line
        { a with dataSections := a.dataSections.map fun s =>
            if s.name = current then { s with items := s.items ++ [item] } else s }

/-- A paragraph opens, in the open section if there is one. -/
def enterParagraph (name : Text) (line : LineNumber) (a : Assembly) : Assembly :=
  let a := a.closeParagraph
  let name := Name.clean name
  { a with
    openSection := a.openSection.map fun s => { s with paragraphs := s.paragraphs ++ [name] }
    openParagraph := some ⟨name, a.openSection.map (·.name), line, line, []⟩
    lastLine := line }

/-- The edge of a CALL in a paragraph. -/
def edge (file paragraph : Text) (s : Statement) : CallEdge :=
  ⟨file, paragraph, s.line, s.target, none, s.dynamic⟩

/-- A statement goes to the open paragraph, and a CALL also to the edges. -/
def appendStatement (s : Statement) (a : Assembly) : Assembly :=
  match a.openParagraph with
  | none => a
  | some p =>
      observe s.line
        { a with
          openParagraph := some { p with statements := p.statements ++ [s] }
          calls := if s.kind = .call then a.calls ++ [edge a.file p.name s] else a.calls }

/-- A statement before any paragraph of the procedure division opens the entry paragraph. -/
def addStatement (s : Statement) (a : Assembly) : Assembly :=
  if a.openParagraph.isNone && a.inProcedure then
    (a.enterParagraph Program.entryParagraph s.line).appendStatement s
  else a.appendStatement s

/-- The state after an event. -/
def step (a : Assembly) : Event → Assembly
  | .programId name => a.setProgramId name
  | .division name line => a.enterDivision name line
  | .sectionHeader name line => a.enterSection name line
  | .dataSection name => a.enterDataSection name
  | .procedureSection name line => a.enterProcedureSection name line
  | .dataItem item => a.addDataItem item
  | .paragraph name line => a.enterParagraph name line
  | .statement s => a.addStatement s
  | .observe line => a.observe line
  | .syntaxErrors count => { a with syntaxErrors := some count }

/-- The state after events. -/
def run (a : Assembly) (events : List Event) : Assembly := events.foldl step a

/-- The program once nothing more is to come. -/
def finish (a : Assembly) : Program where
  file := a.file
  id := a.id
  backend := a.backend
  divisions := a.divisions
  dataSections := a.dataSections
  sections := a.sections
  paragraphs := a.closeParagraph.closedParagraphs
  syntaxErrors := a.syntaxErrors
  declaresId := a.declaresId
  calls := a.calls

@[simp] theorem run_nil (a : Assembly) : a.run [] = a := rfl

@[simp] theorem run_cons (a : Assembly) (e : Event) (events : List Event) :
    a.run (e :: events) = (a.step e).run events := rfl

theorem run_append (a : Assembly) (first second : List Event) :
    a.run (first ++ second) = (a.run first).run second := List.foldl_append

end Assembly

/-- The program that the events of a file tell of. -/
def Program.ofEvents (path : Path) (backend : Text) (events : List Event) : Program :=
  ((Assembly.start path backend).run events).finish

end CobolAtlas
