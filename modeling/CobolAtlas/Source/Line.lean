/-
# CobolAtlas.Source.Line -- the program text of a source line

A line is in fixed format when its first six columns are digits, or are blank with a blank, `*`, `/` or
`-` in column 7; every other line is in free format.  Columns are bytes.  In fixed format column 7 is
the indicator, where `*` and `/` make the line a comment, and what stands past column 72 identifies the
card and is no program text.  In either format a line whose text begins with `*`, in free format also
with `/`, is a comment, and `*>` begins a comment that runs to the end of the line.
-/
import CobolAtlas.Text.Blank

namespace CobolAtlas.Source

set_option autoImplicit false

open Text

/-- A line of source, cut for its format. -/
inductive Layout where
  /-- The sequence area, the indicator and what follows it. -/
  | fixed (sequence : Text) (indicator : Char) (rest : Text)
  | free (line : Text)

/-- Do these columns put a line into fixed format? -/
def isFixed (sequence : Text) (indicator : Char) : Bool :=
  sequence.all Char.isDigit || (sequence.all (· == ' ') && " */-".toList.contains indicator)

/-- The format of a line. -/
def Layout.ofLine (line : Text) : Layout :=
  match splitAtByte? 6 line with
  | some (sequence, indicator :: rest) =>
      if isFixed sequence indicator then .fixed sequence indicator rest else .free line
  | _ => .free line

/-- The text up to the mark `*>`. -/
def beforeComment : Text → Text
  | '*' :: '>' :: _ => []
  | c :: t => c :: beforeComment t
  | [] => []

/-- The text of columns 8 to 72 in what follows the indicator.  It is all kept when it is not longer or
when column 72 ends inside a character, and none of it when the indicator is wider than a column. -/
def programArea (indicator : Char) (rest : Text) : Text :=
  if indicator.utf8Size = 1 then
    match splitAtByte? 65 rest with
    | some (area, _) => area
    | none => rest
  else []

/-- The program text of a line; `none` for a comment. -/
def codeArea (line : Text) : Option Text :=
  match Layout.ofLine line with
  | .fixed _ indicator rest =>
      let area := programArea indicator rest
      if indicator = '*' ∨ indicator = '/' ∨ (trimStart area).head? = some '*' then none
      else some (beforeComment area)
  | .free line =>
      let first := (trimStart line).head?
      if first = some '*' ∨ first = some '/' then none else some (beforeComment line)

end CobolAtlas.Source
