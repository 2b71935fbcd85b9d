/-
# CobolAtlas.Source.Scan -- a program read line by line

The reader that needs no grammar: each code line is a header, or it is looked at as the current division
asks.  In the data division a line with a level, a name and a picture is an item.  In the procedure
division a name alone that starts a sentence is a paragraph, and every other line is searched for one
CALL, one PERFORM and one GO TO.  `Program.ofSource` runs the events of all lines through an assembly;
since the reading of a line depends on the division before it, the two advance together.
-/
import CobolAtlas.Program.Assembly
import CobolAtlas.Source.Header
import CobolAtlas.Source.Line
import CobolAtlas.Source.Picture
import CobolAtlas.Source.Statement
import CobolAtlas.Text.Number

namespace CobolAtlas.Source

set_option autoImplicit false

open Text

/-! ## One line -/

/-- The item on a line of the data division, where it has a picture. -/
def dataItem? (line : LineNumber) (code : Text) : Option DataItem := do
  let (level, name) ← levelAndName? code
  let level ← unsigned? level
  let picture ← picture? code
  some ⟨level, name, some picture, line⟩

/-- The CALL, the PERFORM and the GO TO on a line. -/
def statements (line : LineNumber) (code : Text) : List Statement :=
  ((callTarget? code).map fun t => ⟨.call, t.program, none, line, t.dynamic⟩).toList ++
  ((performRange? code).map fun r => ⟨.perform, r.first, r.last, line, false⟩).toList ++
  ((goToTarget? code).map fun target => ⟨.goTo, target, none, line, false⟩).toList

/-- The paragraph that a line of the procedure division opens. -/
def paragraphHeader? (sentenceStart : Bool) (code : Text) : Option Text :=
  if sentenceStart then (paragraphName? code).filter fun name => !isSentenceVerb name else none

/-- What a line of the procedure division reports. -/
def procedureEvents (sentenceStart : Bool) (line : LineNumber) (code : Text) : List Event :=
  match paragraphHeader? sentenceStart code with
  | some name => [.paragraph name line]
  | none => (statements line code).map .statement ++ [.observe line]

/-- What a header reports. -/
def Header.event (line : LineNumber) : Header → Event
  | .division name => .division name line
  | .sectionHead name => .sectionHeader name line
  | .programId name => .programId name

/-- What a code line reports in a division; `sentenceStart` tells whether the code line before it ended a
sentence. -/
def lineEvents (division : Option Text) (sentenceStart : Bool) (line : LineNumber) (code : Text) :
    List Event :=
  match header? code with
  | some header => [header.event line]
  | none =>
      if division = some "DATA".toList then ((dataItem? line code).map .dataItem).toList
      else if division = some "PROCEDURE".toList then procedureEvents sentenceStart line code
      else []

/-! ## All lines -/

/-- The program text of a line without blanks at its ends; `none` when nothing is left. -/
def code? (line : Text) : Option Text :=
  (codeArea line).bind fun area => if (trim area).isEmpty then none else some (trim area)

/-- The code lines among `lines`, numbered from `first`. -/
def numberedCode (first : Nat) : List Text → List (LineNumber × Text)
  | [] => []
  | line :: lines =>
      ((code? line).map fun code => (UInt32.ofNat first, code)).toList ++ numberedCode (first + 1) lines

/-- The code lines of a source text. -/
def codeLines (text : Text) : List (LineNumber × Text) := numberedCode 1 (lines text)

/-- A scan between two lines: the assembly, and whether a sentence starts on the next line. -/
structure Scan where
  assembly : Assembly
  sentenceStart : Bool

/-- The scan after a code line. -/
def Scan.advance (s : Scan) (numbered : LineNumber × Text) : Scan where
  assembly := s.assembly.run
    (lineEvents s.assembly.division s.sentenceStart numbered.1 numbered.2)
  sentenceStart := numbered.2.getLast? == some '.'

/-- The name under which this reader is recorded. -/
def backendName : Text := "heuristic".toList

/-- The scan of a source text to its end. -/
def scan (path : Path) (text : Text) : Scan :=
  (codeLines text).foldl Scan.advance ⟨Assembly.start path backendName, true⟩

end CobolAtlas.Source

namespace CobolAtlas

/-- The program of a source text, read line by line. -/
def Program.ofSource (path : Path) (text : Text) : Program := (Source.scan path text).assembly.finish

end CobolAtlas
