/-
# CobolAtlas.Json.Printer -- values as text

`pretty` puts each element and member on a line of its own, two blanks deeper than its brackets;
`compact` puts nothing between tokens.  An empty array or object is its brackets alone.  In strings the
quote, the backslash and the control characters are escaped, the latter by a letter where one exists.
-/
import CobolAtlas.Json.Basic

namespace CobolAtlas.Json

set_option autoImplicit false

/-! ## Strings -/

/-- A digit of base sixteen in lower case. -/
def hexDigit (n : Nat) : Char := if n < 10 then Char.ofNat (48 + n) else Char.ofNat (87 + n)

/-- What is written for a character inside a string. -/
def escape (c : Char) : Text :=
  if c == '"' then ['\\', '"']
  else if c == '\\' then ['\\', '\\']
  else if c == '\x08' then ['\\', 'b']
  else if c == '\x0c' then ['\\', 'f']
  else if c == '\n' then ['\\', 'n']
  else if c == '\r' then ['\\', 'r']
  else if c == '\t' then ['\\', 't']
  else if c.toNat < 32 then ['\\', 'u', '0', '0', hexDigit (c.toNat / 16), hexDigit (c.toNat % 16)]
  else [c]

/-- A string token; one that is no text is written as a lone half of a pair. -/
def quoted : Option Text → Text
  | some t => '"' :: t.flatMap escape ++ ['"']
  | none => "\"\\ud800\"".toList

/-! ## Values -/

/-- A line break and `depth` steps of two blanks. -/
def newLine (depth : Nat) : Text := '\n' :: List.replicate (2 * depth) ' '

mutual

/-- The value over lines, its brackets at `depth`. -/
def prettyAt (depth : Nat) : Json → Text
  | .null => "null".toList
  | .bool true => "true".toList
  | .bool false => "false".toList
  | .number numeral => numeral
  | .string text => quoted text
  | .array [] => ['[', ']']
  | .array (e :: es) =>
      '[' :: newLine (depth + 1) ++ prettyAt (depth + 1) e ++ prettyElements depth es ++
        newLine depth ++ [']']
  | .object [] => ['\x7b', '\x7d']
  | .object ((name, value) :: ms) =>
      '\x7b' :: newLine (depth + 1) ++ quoted name ++ [':', ' '] ++ prettyAt (depth + 1) value ++
        prettyMembers depth ms ++ newLine depth ++ ['\x7d']

/-- The elements after the first. -/
def prettyElements (depth : Nat) : List Json → Text
  | [] => []
  | e :: es => ',' :: newLine (depth + 1) ++ prettyAt (depth + 1) e ++ prettyElements depth es

/-- The members after the first. -/
def prettyMembers (depth : Nat) : List (Option Text × Json) → Text
  | [] => []
  | (name, value) :: ms =>
      ',' :: newLine (depth + 1) ++ quoted name ++ [':', ' '] ++ prettyAt (depth + 1) value ++
        prettyMembers depth ms

end

/-- The value over lines. -/
def pretty (v : Json) : Text := prettyAt 0 v

mutual

/-- The value on one line. -/
def compact : Json → Text
  | .null => "null".toList
  | .bool true => "true".toList
  | .bool false => "false".toList
  | .number numeral => numeral
  | .string text => quoted text
  | .array [] => ['[', ']']
  | .array (e :: es) => '[' :: compact e ++ compactElements es ++ [']']
  | .object [] => ['\x7b', '\x7d']
  | .object ((name, value) :: ms) =>
      '\x7b' :: quoted name ++ ':' :: compact value ++ compactMembers ms ++ ['\x7d']

/-- The elements after the first, on one line. -/
def compactElements : List Json → Text
  | [] => []
  | e :: es => ',' :: compact e ++ compactElements es

/-- The members after the first, on one line. -/
def compactMembers : List (Option Text × Json) → Text
  | [] => []
  | (name, value) :: ms => ',' :: quoted name ++ ':' :: compact value ++ compactMembers ms

end

end CobolAtlas.Json
