/-
# CobolAtlas.Source.Header -- headers at the start of a code line

A code line is looked at for a header before anything else: a division, a section, a PROGRAM-ID.  Names
in headers are in any letter case.  In the data division a line may begin with a level and a name
(`levelAndName?`); in the procedure division a name and a period alone are a paragraph (`paragraphName?`),
unless the name is a statement of one word (`isSentenceVerb`).
-/
import CobolAtlas.Source.Name
import CobolAtlas.Text.Keyword

namespace CobolAtlas.Source

set_option autoImplicit false

open Text

/-- What a header line declares. -/
inductive Header where
  | division (name : Text)
  | sectionHead (name : Text)
  | programId (name : Text)
deriving DecidableEq

/-- A name that starts with a word character, and the text after the blanks that follow it. -/
def headerName? (code : Text) : Option (Text × Text) := do
  let (name, rest) ← name? code
  match name with
  | c :: _ => if isWordCharacter c then (skipBlanks? rest).map fun rest => (name, rest) else none
  | [] => none

/-- Does no word character follow? -/
def endsWord : Text → Bool
  | [] => true
  | c :: _ => !isWordCharacter c

/-- The name before the word DIVISION. -/
def divisionName? (code : Text) : Option Text := do
  let (name, rest) ← headerName? code
  let rest ← afterKeyword? "DIVISION".toList rest
  if endsWord rest then some name else none

/-- The name before the word SECTION and a period. -/
def sectionName? (code : Text) : Option Text := do
  let (name, rest) ← headerName? code
  let rest ← afterKeyword? "SECTION".toList rest
  if (trimStart rest).head? = some '.' then some name else none

/-- The text after blanks of which there is at least one, with a period allowed before the last of them. -/
def afterIdSeparator? (t : Text) : Option Text :=
  match trimStart t with
  | '.' :: rest => skipBlanks? rest
  | _ => skipBlanks? t

/-- The name after PROGRAM-ID, with or without a quote before it. -/
def programIdName? (code : Text) : Option Text := do
  let rest ← afterIdSeparator? (← afterKeyword? "PROGRAM-ID".toList code)
  let rest := match rest with
    | c :: body => if Name.isQuote c then body else rest
    | [] => rest
  (name? rest).map (·.1)

/-- The header at the start of a code line. -/
def header? (code : Text) : Option Header :=
  match divisionName? code with
  | some name => some (.division name)
  | none => match sectionName? code with
    | some name => some (.sectionHead name)
    | none => (programIdName? code).map .programId

/-- One or two decimal digits of any script, blanks, and a name; hyphens at the end of the name do not
belong to it. -/
def levelAndName? (code : Text) : Option (Text × Text) := do
  let level := code.takeWhile isDecimalDigit
  if level.isEmpty || 2 < level.length then none
  let rest ← skipBlanks? (code.dropWhile isDecimalDigit)
  let (run, _) ← name? rest
  let name := dropEndWhile (· == '-') run
  if name.isEmpty then none else some (level, name)

/-- The name on a line that has a period after it and nothing else. -/
def paragraphName? (code : Text) : Option Text := do
  let (name, rest) ← name? code
  if trim rest = ['.'] then some name else none

/-- Statements of one word that look like paragraph headers. -/
def sentenceVerbs : List Text :=
  ["EXIT", "GOBACK", "CONTINUE", "ELSE", "DECLARATIVES"].map String.toList

/-- Is the word a statement by itself or the end of one (`END-IF`)? -/
def isSentenceVerb (word : Text) : Bool :=
  (sameIgnoringCase (word.take 4) "END-".toList && 4 < word.length) ||
    sentenceVerbs.any (sameIgnoringCase · word)

end CobolAtlas.Source
