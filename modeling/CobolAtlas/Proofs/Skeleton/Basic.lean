/-
# CobolAtlas.Proofs.Skeleton.Basic -- programs to be written

A skeleton is what a program consists of as far as it is recorded: a name, data sections with their
items, paragraphs outside sections, and sections with their paragraphs, each paragraph with its
statements.  Its parts carry their own side conditions: a `UserName` is a word that no header, clause or
statement could take for its own, a `PictureString` and a `QuotedLiteral` stop where they are meant to.

A skeleton is written construct by construct, one on each line (`Skeleton.constructs`,
`Construct.code`).  A statement may end its sentence or leave it to the statement after it.  What the
skeleton amounts to as a `Program` is told without reading anything (`Skeleton.program`): the number of a
line is the number of constructs before it, plus one.
-/
import CobolAtlas.Proofs.Program.Agreement
import CobolAtlas.Source.Header
import CobolAtlas.Source.Statement

namespace CobolAtlas

set_option autoImplicit false

namespace Skeleton

/-! ## Parts -/

/-- The characters of user names: letters and digits of ASCII, and the hyphen. -/
def isPlain (c : Char) : Bool := c.isAlphanum || c == '-'

/-- Words that a header, a clause or a statement takes for its own. -/
def reservedWords : List Text :=
  ["DIVISION", "SECTION", "PROGRAM-ID", "PIC", "PICTURE", "IS", "TO", "THRU", "THROUGH",
    "DEPENDING"].map String.toList ++
  Source.loopWords ++ Source.statementVerbs ++ Source.sentenceVerbs

/-- A word that a programmer chose. -/
structure UserName where
  text : Text
  plain : text.all isPlain = true := by decide +kernel
  starts : text.head?.any Char.isAlphanum = true := by decide +kernel
  ends : text.getLast?.any Char.isAlphanum = true := by decide +kernel
  unreserved : Source.isOneOf reservedWords text = false := by decide +kernel
  noEnd : "END-".toList.isPrefixOf (Text.upperAscii text) = false := by decide +kernel
  noDivision : "DIVISION".toList.isPrefixOf (Text.upperAscii text) = false := by decide +kernel

/-- A level number, in two digits where `wide` or where it takes two. -/
structure Level where
  number : Nat
  wide : Bool
  positive : 1 ≤ number := by decide +kernel
  small : number ≤ 99 := by decide +kernel

/-- A number below 100 in decimal digits, of which there are two where `wide`. -/
def digits (number : Nat) (wide : Bool) : Text :=
  if wide || 10 ≤ number then [Nat.digitChar (number / 10), Nat.digitChar (number % 10)]
  else [Nat.digitChar number]

def Level.text (l : Level) : Text := digits l.number l.wide

/-- The text of a picture.  A final period would be taken for the separator. -/
structure PictureString where
  text : Text
  nonempty : text ≠ [] := by decide +kernel
  characters : (text.all fun c => c.isAlphanum || "()$,.+*/-".toList.contains c) = true := by decide +kernel
  ends : text.getLast? ≠ some '.' := by decide +kernel

/-- A literal between quotes: on one line, without its own quote, without blanks at its ends and without
the mark of a comment. -/
structure QuotedLiteral where
  quote : Char
  text : Text
  quotes : Name.isQuote quote = true := by decide +kernel
  starts : text.head?.any (fun c => !Text.isBlank c) = true := by decide +kernel
  ends : text.getLast?.any (fun c => !Text.isBlank c) = true := by decide +kernel
  noQuote : quote ∉ text := by decide +kernel
  oneLine : '\n' ∉ text := by decide +kernel
  noComment : ¬ "*>".toList <:+: text := by decide +kernel

/-- A data description with a picture. -/
structure Item where
  level : Level
  name : UserName
  picture : PictureString

/-- A statement that transfers control.  A number after PERFORM would be a count. -/
inductive Transfer where
  | callLiteral (program : QuotedLiteral)
  | callData (name : UserName)
  | perform (first : UserName) (notCount : first.text.all Char.isDigit = false) (last : Option UserName)
  | goTo (target : UserName)

/-- A section of the data division. -/
structure DataPart where
  name : UserName
  items : List Item

/-- A paragraph. -/
structure ParagraphPart where
  name : UserName
  transfers : List Transfer

/-- A section of the procedure division. -/
structure ProcedurePart where
  name : UserName
  paragraphs : List ParagraphPart

/-- The divisions that a skeleton has. -/
inductive Division where
  | identification
  | data
  | procedure

def Division.name : Division → Text
  | .identification => "IDENTIFICATION".toList
  | .data => "DATA".toList
  | .procedure => "PROCEDURE".toList

/-- What stands on one line. -/
inductive Construct where
  | division (d : Division)
  | programId (name : UserName)
  | sectionHeader (name : UserName)
  | item (i : Item)
  | paragraph (name : UserName)
  | transfer (t : Transfer)

end Skeleton

/-- A program to be written.  No two data sections have the same name, letter case aside. -/
structure Skeleton where
  id : Skeleton.UserName
  dataSections : List Skeleton.DataPart
  paragraphs : List Skeleton.ParagraphPart
  sections : List Skeleton.ProcedurePart
  distinct : (dataSections.map fun s => Text.upperAscii s.name.text).Nodup := by decide +kernel

namespace Skeleton

/-! ## The lines of a skeleton -/

/-- What comes after the last word of a sentence, or after words that leave the sentence open. -/
def ending : (period : Bool) → Text
  | true => ['.']
  | false => []

/-- Pieces with a blank between two of them, and the ending. -/
def sentence (period : Bool) : List Text → Text
  | [] => ending period
  | [piece] => piece ++ ending period
  | piece :: pieces => piece ++ ' ' :: sentence period pieces

def QuotedLiteral.quoted (l : QuotedLiteral) : Text := l.quote :: (l.text ++ [l.quote])

def Transfer.pieces : Transfer → List Text
  | .callLiteral l => ["CALL".toList, l.quoted]
  | .callData name => ["CALL".toList, name.text]
  | .perform first _ none => ["PERFORM".toList, first.text]
  | .perform first _ (some last) => ["PERFORM".toList, first.text, "THRU".toList, last.text]
  | .goTo target => ["GO".toList, "TO".toList, target.text]

def Construct.pieces : Construct → List Text
  | .division d => [d.name, "DIVISION".toList]
  | .programId name => ["PROGRAM-ID.".toList, name.text]
  | .sectionHeader name => [name.text, "SECTION".toList]
  | .item i => [i.level.text, i.name.text, "PIC".toList, i.picture.text]
  | .paragraph name => [name.text]
  | .transfer t => t.pieces

/-- Does the construct end its sentence?  Only statements have the choice. -/
def Construct.ends (period : Bool) : Construct → Bool
  | .transfer _ => period
  | _ => true

/-- The text of a construct. -/
def Construct.code (period : Bool) (c : Construct) : Text := sentence (c.ends period) c.pieces

def DataPart.constructs (s : DataPart) : List Construct :=
  .sectionHeader s.name :: s.items.map .item

def ParagraphPart.constructs (p : ParagraphPart) : List Construct :=
  .paragraph p.name :: p.transfers.map .transfer

def ProcedurePart.constructs (s : ProcedurePart) : List Construct :=
  .sectionHeader s.name :: s.paragraphs.flatMap (·.constructs)

/-- The constructs in the order in which they are written. -/
def constructs (s : Skeleton) : List Construct :=
  [.division .identification, .programId s.id, .division .data] ++
  s.dataSections.flatMap (·.constructs) ++
  .division .procedure :: (s.paragraphs.flatMap (·.constructs) ++ s.sections.flatMap (·.constructs))

/-! ## The program that a skeleton amounts to -/

section Numbering

variable {α β : Type}

/-- What each part amounts to where it stands, when the parts follow one another from `line` on and each
takes `height` lines. -/
def numbered (height : α → Nat) (record : Nat → α → β) : Nat → List α → List β
  | _, [] => []
  | line, x :: xs => record line x :: numbered height record (line + height x) xs

/-- The lines that the parts take together. -/
def totalHeight (height : α → Nat) : List α → Nat
  | [] => 0
  | x :: xs => height x + totalHeight height xs

end Numbering

def Item.record (line : Nat) (i : Item) : DataItem where
  level := UInt32.ofNat i.level.number
  name := i.name.text
  picture := some i.picture.text
  line := UInt32.ofNat line

def Transfer.record (line : Nat) : Transfer → Statement
  | .callLiteral l => ⟨.call, l.text, none, UInt32.ofNat line, false⟩
  | .callData name => ⟨.call, name.text, none, UInt32.ofNat line, true⟩
  | .perform first _ last => ⟨.perform, first.text, last.map (·.text), UInt32.ofNat line, false⟩
  | .goTo target => ⟨.goTo, target.text, none, UInt32.ofNat line, false⟩

def DataPart.height (s : DataPart) : Nat := 1 + s.items.length

def DataPart.record (line : Nat) (s : DataPart) : DataSection where
  name := Text.upperAscii s.name.text
  items := numbered (fun _ => 1) Item.record (line + 1) s.items

def ParagraphPart.height (p : ParagraphPart) : Nat := 1 + p.transfers.length

def ParagraphPart.statements (line : Nat) (p : ParagraphPart) : List Statement :=
  numbered (fun _ => 1) Transfer.record (line + 1) p.transfers

/-- A paragraph ends at the last of its lines. -/
def ParagraphPart.record (inSection : Option Text) (line : Nat) (p : ParagraphPart) : Paragraph where
  name := p.name.text
  inSection := inSection
  line := UInt32.ofNat line
  endLine := ((p.statements line).map (·.line)).foldl max (UInt32.ofNat line)
  statements := p.statements line

def ProcedurePart.height (s : ProcedurePart) : Nat := 1 + totalHeight (·.height) s.paragraphs

def ProcedurePart.record (line : Nat) (s : ProcedurePart) : ProcedureSection where
  name := Text.upperAscii s.name.text
  line := UInt32.ofNat line
  paragraphs := s.paragraphs.map (·.name.text)

def ProcedurePart.paragraphRecords (line : Nat) (s : ProcedurePart) : List Paragraph :=
  numbered (·.height) (ParagraphPart.record (some (Text.upperAscii s.name.text))) (line + 1) s.paragraphs

/-- The line of the procedure division's header. -/
def procedureLine (s : Skeleton) : Nat := 4 + totalHeight (·.height) s.dataSections

/-- The line after the paragraphs outside sections. -/
def sectionsLine (s : Skeleton) : Nat := s.procedureLine + 1 + totalHeight (·.height) s.paragraphs

def paragraphRecords (s : Skeleton) : List Paragraph :=
  numbered (·.height) (ParagraphPart.record none) (s.procedureLine + 1) s.paragraphs ++
  (numbered (·.height) ProcedurePart.paragraphRecords s.sectionsLine s.sections).flatten

/-- The program that is written by the skeleton into a file. -/
def program (path : Path) (s : Skeleton) : Program where
  file := path.text
  id := s.id.text
  backend := "heuristic".toList
  divisions := [Division.identification, .data, .procedure].map (·.name)
  dataSections := numbered (·.height) DataPart.record 4 s.dataSections
  sections := numbered (·.height) ProcedurePart.record s.sectionsLine s.sections
  paragraphs := s.paragraphRecords
  syntaxErrors := none
  declaresId := true
  calls := s.paragraphRecords.flatMap (Paragraph.callEdges path.text)

end Skeleton

end CobolAtlas
