/-
# CobolAtlas.Source.Name -- names freed of what surrounds them

A name in a header may carry blanks, the separator period and quotes.  `clean` takes these off in a
fixed order: blanks, periods at the end, blanks, quotes at both ends.
-/
import CobolAtlas.Text.Blank
import CobolAtlas.Text.CaseMapping

namespace CobolAtlas.Name

set_option autoImplicit false

/-- Is `c` one of the two quotes? -/
def isQuote (c : Char) : Bool := c == '"' || c == '\''

/-- Without blanks, final periods and quotes. -/
def clean (raw : Text) : Text :=
  Text.dropBothWhile isQuote (Text.trim (Text.dropEndWhile (· == '.') (Text.trim raw)))

/-- The first word of a header such as `MAIN-LOGIC SECTION.`, cleaned. -/
def ofHeader (header : Text) : Text := clean (Text.firstWord header)

/-- A division by its full name in upper case; `ID` abbreviates `IDENTIFICATION`. -/
def ofDivision (raw : Text) : Text :=
  let name := Text.upper (Text.trim raw)
  if name = "ID".toList then "IDENTIFICATION".toList else name

/-- A section's name, cleaned and in upper case. -/
def ofSection (raw : Text) : Text := Text.upper (clean raw)

end CobolAtlas.Name
