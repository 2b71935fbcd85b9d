/-
# CobolAtlas.Program.Basic -- what is known of one COBOL source file

A `Program` lists the divisions of a file, its data sections with their items, its procedure sections
and its paragraphs with the statements that transfer control.  Lines are numbered from 1 in 32 bits.
Each CALL is also an edge of the repository's call graph (`calls`).  `lastLine` is the last line that
a paragraph or a data item reaches.
-/
import CobolAtlas.Text.CaseMapping

namespace CobolAtlas

set_option autoImplicit false

/-- A line of a source file, counted from 1. -/
abbrev LineNumber := UInt32

/-- The statements that transfer control. -/
inductive StatementKind where
  | call
  | perform
  | goTo
deriving DecidableEq, Repr

/-- The verb as it is written. -/
def StatementKind.verb : StatementKind → Text
  | .call => "CALL".toList
  | .perform => "PERFORM".toList
  | .goTo => "GO TO".toList

/-- One transfer of control.  `thru` ends the range of a PERFORM; `dynamic` marks a CALL whose target is
a data name. -/
structure Statement where
  kind : StatementKind
  target : Text
  thru : Option Text
  line : LineNumber
  dynamic : Bool
deriving DecidableEq

/-- A paragraph of the procedure division and the procedure section it stands in. -/
structure Paragraph where
  name : Text
  inSection : Option Text
  line : LineNumber
  endLine : LineNumber
  statements : List Statement
deriving DecidableEq

/-- A section of the procedure division and the names of its paragraphs. -/
structure ProcedureSection where
  name : Text
  line : LineNumber
  paragraphs : List Text
deriving DecidableEq

/-- A description of the data division. -/
structure DataItem where
  level : UInt32
  name : Text
  picture : Option Text
  line : LineNumber
deriving DecidableEq

/-- A section of the data division. -/
structure DataSection where
  name : Text
  items : List DataItem
deriving DecidableEq

/-- A CALL from a paragraph to a program; `toFile` is the file that declares the program, where known. -/
structure CallEdge where
  fromFile : Text
  fromParagraph : Text
  line : LineNumber
  toProgram : Text
  toFile : Option Text
  dynamic : Bool
deriving DecidableEq

/-- The structure of one source file.  `id` is the program's name, declared in the file or else the stem
of the file's name; `backend` names the reader that found the structure. -/
structure Program where
  file : Text
  id : Text
  backend : Text
  divisions : List Text
  dataSections : List DataSection
  sections : List ProcedureSection
  paragraphs : List Paragraph
  syntaxErrors : Option UInt32
  declaresId : Bool
  calls : List CallEdge
deriving DecidableEq

namespace Program

/-- The name of the paragraph that holds the statements before the first paragraph header. -/
def entryParagraph : Text := "(entry)".toList

/-- The first paragraph of that name, letter case of ASCII aside. -/
def paragraph? (p : Program) (name : Text) : Option Paragraph :=
  p.paragraphs.find? fun q => Text.sameIgnoringCase q.name name

/-- The first data section of that name, letter case of ASCII aside. -/
def dataSection? (p : Program) (name : Text) : Option DataSection :=
  p.dataSections.find? fun s => Text.sameIgnoringCase s.name name

/-- The lines at which a paragraph ends or a data item stands. -/
def extentLines (p : Program) : List LineNumber :=
  p.paragraphs.map (·.endLine) ++ (p.dataSections.flatMap (·.items)).map (·.line)

/-- The last line that a paragraph or data item reaches; 0 when there is none. -/
def lastLine (p : Program) : LineNumber := p.extentLines.foldl max 0

/-- All statements in order. -/
def statements (p : Program) : List Statement := p.paragraphs.flatMap (·.statements)

end Program

end CobolAtlas
