/-
# CobolAtlas.Source.Picture -- the picture of a data description

A picture follows PIC or PICTURE and an optional IS.  It is a run of the characters of pictures; periods
at its end separate it from what follows.  Where nothing follows IS, the word itself is the picture.
-/
import CobolAtlas.Text.Keyword

namespace CobolAtlas.Source

set_option autoImplicit false

open Text

/-- Can `c` stand in a picture? -/
def isPictureCharacter (c : Char) : Bool :=
  isLetterOrDigit c || "()$,.+*/-".toList.contains c

/-- A run of picture characters after at least one blank. -/
def pictureRun? (t : Text) : Option Text :=
  match ((skipBlanks? t).getD []).takeWhile isPictureCharacter with
  | [] => none
  | run => some run

/-- A PIC clause at the start of the text, as far as its picture with final periods. -/
def pictureClause? (t : Text) : Option Text := do
  let rest ← afterKeyword? "PIC".toList t
  let rest := (afterKeyword? "TURE".toList rest).getD rest
  match ((skipBlanks? rest).bind (afterKeyword? "IS".toList)).bind pictureRun? with
  | some run => some run
  | none => pictureRun? rest

/-- The picture of the first PIC clause of the text. -/
def picture? (t : Text) : Option Text :=
  match search pictureClause? t with
  | none => none
  | some run =>
      let picture := dropEndWhile (· == '.') run
      if picture.isEmpty then none else some picture

end CobolAtlas.Source
