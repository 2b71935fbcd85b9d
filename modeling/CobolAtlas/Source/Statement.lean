/-
# CobolAtlas.Source.Statement -- the targets of CALL, PERFORM and GO TO

Each statement is recognised at the leftmost place of the masked text where its verb starts a word and
its operands follow; what fails to follow there is looked for further on.

* `callTarget?`: a quoted literal, read from the text itself and trimmed, or a data name.
* `performRange?`: a procedure on the line of the verb, with the bound of THRU; loops, inline bodies and
  counts name no procedure.
* `goToTarget?`: a procedure, with or without TO; `GO TO.` alone names none.
-/
import CobolAtlas.Source.Literal
import CobolAtlas.Text.Keyword

namespace CobolAtlas.Source

set_option autoImplicit false

open Text

/-! ## CALL -/

/-- The operand of a CALL in masked text: a literal, given by the bytes from the start of its content to
the end of the text and the bytes of its content, or a data name. -/
inductive CallOperand where
  | literal (toEnd length : Nat)
  | dataName (name : Text)

/-- A CALL with its operand at the start of the text. -/
def callOperand? (t : Text) : Option CallOperand := do
  let rest ← afterKeyword? "CALL".toList t
  match ← skipBlanks? rest with
  | [] => none
  | c :: body =>
      if Name.isQuote c then
        let content := body.takeWhile (· != c)
        if content.isEmpty || !body.contains c then none
        else some (.literal (byteLength body) (byteLength content))
      else if isLetterOrDigit c then some (.dataName (c :: body.takeWhile isNameCharacter))
      else none

/-- The program that a CALL names, and whether by a data name. -/
structure CallTarget where
  program : Text
  dynamic : Bool
deriving DecidableEq

/-- The target of the first CALL of the text. -/
def callTarget? (t : Text) : Option CallTarget :=
  match search callOperand? (Literal.mask t) with
  | none => none
  | some (.dataName name) => some ⟨name, true⟩
  | some (.literal toEnd length) =>
      let name := trim (byteSlice (byteLength t - toEnd) length t)
      if name.isEmpty then none else some ⟨name, false⟩

/-! ## PERFORM -/

/-- The words after PERFORM, up to three: the blank run before them, and each word. -/
structure PerformWords where
  gap : Text
  first : Text
  second : Option Text
  third : Option Text

/-- A name after at least one blank, and the text after it. -/
def nextName? (t : Text) : Option (Text × Text) := (skipBlanks? t).bind name?

/-- A PERFORM and the words after it at the start of the text. -/
def performWords? (t : Text) : Option PerformWords := do
  let rest ← afterKeyword? "PERFORM".toList t
  let (gap, rest) ← gap? rest
  let (first, rest) ← name? rest
  match nextName? rest with
  | none => some ⟨gap, first, none, none⟩
  | some (second, rest) => some ⟨gap, first, some second, (nextName? rest).map (·.1)⟩

/-- Words that can follow PERFORM without naming a procedure. -/
def loopWords : List Text :=
  ["UNTIL", "VARYING", "WITH", "TEST", "FOREVER", "TIMES"].map String.toList

/-- Verbs that open the body of an inline PERFORM. -/
def statementVerbs : List Text :=
  ["ACCEPT", "ADD", "ALLOCATE", "CALL", "CANCEL", "CLOSE", "COMPUTE", "CONTINUE", "DELETE",
    "DISPLAY", "DIVIDE", "EVALUATE", "EXEC", "EXIT", "FREE", "GO", "GOBACK", "IF", "INITIALIZE",
    "INSPECT", "INVOKE", "MERGE", "MOVE", "MULTIPLY", "OPEN", "PERFORM", "READ", "RELEASE",
    "RETURN", "REWRITE", "SEARCH", "SET", "SORT", "START", "STOP", "STRING", "SUBTRACT",
    "UNSTRING", "WRITE"].map String.toList

/-- Is the word in the list, letter case of ASCII aside? -/
def isOneOf (words : List Text) (word : Text) : Bool := words.any (sameIgnoringCase · word)

/-- Does the word after PERFORM name a procedure? -/
def isProcedureName (word : Text) : Bool :=
  !isOneOf loopWords word && !isOneOf statementVerbs word && !word.all Char.isDigit

/-- The procedures that a PERFORM runs: one, or all from the first to the last. -/
structure PerformRange where
  first : Text
  last : Option Text
deriving DecidableEq

/-- The range that the words after PERFORM name. -/
def PerformWords.range? (w : PerformWords) : Option PerformRange :=
  if w.gap.contains '\n' || !isProcedureName w.first then none
  else match w.second with
    | none => some ⟨w.first, none⟩
    | some second =>
        if isOneOf ["TIMES".toList] second then none
        else if isOneOf ["THRU".toList, "THROUGH".toList] second then some ⟨w.first, w.third⟩
        else some ⟨w.first, none⟩

/-- The range of the first PERFORM of the text. -/
def performRange? (t : Text) : Option PerformRange :=
  (search performWords? (Literal.mask t)).bind PerformWords.range?

/-! ## GO TO -/

/-- A GO, with or without TO, and the word after it at the start of the text. -/
def goToWord? (t : Text) : Option Text := do
  let rest ← skipBlanks? (← afterKeyword? "GO".toList t)
  match (afterKeyword? "TO".toList rest).bind nextName? with
  | some (name, _) => some name
  | none => (name? rest).map (·.1)

/-- The target of the first GO TO of the text. -/
def goToTarget? (t : Text) : Option Text :=
  match search goToWord? (Literal.mask t) with
  | none => none
  | some word => if isOneOf ["DEPENDING".toList, "TO".toList] word then none else some word

end CobolAtlas.Source
