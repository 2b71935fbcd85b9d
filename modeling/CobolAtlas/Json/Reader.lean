/-
# CobolAtlas.Json.Reader -- values from text

`parse?` reads one value with nothing but blanks around it.  A string is read in two steps: its token is
cut into code units (`units?`), which escapes may give singly, and the units are joined to a text, which
fails on half of a surrogate pair (`textOfUnits`).  Numerals are kept as written.  Nesting has no limit:
the number of steps allowed is one more than the length of the text, and each step passes a character.
-/
import CobolAtlas.Json.Basic

namespace CobolAtlas.Json

set_option autoImplicit false

/-! ## Strings -/

/-- The value of a digit of base sixteen. -/
def hexValue? (c : Char) : Option Nat :=
  if c.isDigit then some (c.toNat - 48)
  else if 'a' ≤ c ∧ c ≤ 'f' then some (c.toNat - 87)
  else if 'A' ≤ c ∧ c ≤ 'F' then some (c.toNat - 55)
  else none

/-- The value of four digits of base sixteen. -/
def hexUnit? (a b c d : Char) : Option Nat := do
  some (((← hexValue? a) * 16 + (← hexValue? b)) * 256 + ((← hexValue? c) * 16 + (← hexValue? d)))

/-- The character that a letter after the backslash stands for. -/
def escaped? (c : Char) : Option Char :=
  if c == '"' ∨ c == '\\' ∨ c == '/' then some c
  else if c == 'b' then some '\x08'
  else if c == 'f' then some '\x0c'
  else if c == 'n' then some '\n'
  else if c == 'r' then some '\r'
  else if c == 't' then some '\t'
  else none

/-- The units of a string up to its closing quote, and the text after that. -/
def units? : Text → Option (List Nat × Text)
  | [] => none
  | '"' :: rest => some ([], rest)
  | '\\' :: 'u' :: a :: b :: c :: d :: rest => do
      let unit ← hexUnit? a b c d
      (units? rest).map fun (units, rest) => (unit :: units, rest)
  | '\\' :: c :: rest => do
      let c ← escaped? c
      (units? rest).map fun (units, rest) => (c.toNat :: units, rest)
  | c :: rest =>
      if c.toNat < 32 ∨ c == '\\' then none
      else (units? rest).map fun (units, rest) => (c.toNat :: units, rest)

/-- Is the unit the first half of a surrogate pair? -/
def isHighHalf (n : Nat) : Bool := 0xD800 ≤ n && n ≤ 0xDBFF

/-- Is the unit the second half of a surrogate pair? -/
def isLowHalf (n : Nat) : Bool := 0xDC00 ≤ n && n ≤ 0xDFFF

/-- The text that units write; `none` where a half stands alone. -/
def textOfUnits : List Nat → Option Text
  | [] => some []
  | [n] => if isHighHalf n || isLowHalf n then none else some [Char.ofNat n]
  | n :: m :: units =>
      if isHighHalf n && isLowHalf m then
        (textOfUnits units).map (Char.ofNat (0x10000 + (n - 0xD800) * 0x400 + (m - 0xDC00)) :: ·)
      else if isHighHalf n || isLowHalf n then none
      else (textOfUnits (m :: units)).map (Char.ofNat n :: ·)

/-- A string after its opening quote. -/
def stringToken? (t : Text) : Option (Option Text × Text) :=
  (units? t).map fun (units, rest) => (textOfUnits units, rest)

/-! ## Numerals -/

/-- At least one digit, and the text after all of them. -/
def digits? (t : Text) : Option (Text × Text) :=
  match t.takeWhile Char.isDigit with
  | [] => none
  | digits => some (digits, t.dropWhile Char.isDigit)

/-- The digits before point and exponent: zero alone, or a run that does not start with zero. -/
def wholePart? : Text → Option (Text × Text)
  | '0' :: rest => some (['0'], rest)
  | t => digits? t

/-- A point and digits, if a point follows. -/
def fraction? : Text → Option (Text × Text)
  | '.' :: rest => (digits? rest).map fun (digits, rest) => ('.' :: digits, rest)
  | t => some ([], t)

/-- An exponent with its sign and digits, if the letter of one follows. -/
def exponent? : Text → Option (Text × Text)
  | c :: rest =>
      if c == 'e' ∨ c == 'E' then
        let (sign, rest) : Text × Text := match rest with
          | '+' :: rest => (['+'], rest)
          | '-' :: rest => (['-'], rest)
          | rest => ([], rest)
        (digits? rest).map fun (digits, rest) => (c :: sign ++ digits, rest)
      else some ([], c :: rest)
  | [] => some ([], [])

/-- A numeral and the text after it. -/
def numeral? (t : Text) : Option (Text × Text) := do
  let (sign, t) : Text × Text := match t with
    | '-' :: rest => (['-'], rest)
    | t => ([], t)
  let (whole, t) ← wholePart? t
  let (fraction, t) ← fraction? t
  let (exponent, t) ← exponent? t
  some (sign ++ whole ++ fraction ++ exponent, t)

/-! ## Values -/

/-- The blanks of the format: space, tab and the two line characters. -/
def isSpace (c : Char) : Bool := c == ' ' || c == '\n' || c == '\t' || c == '\r'

/-- The text from its first character that is no blank. -/
def skipSpace (t : Text) : Text := t.dropWhile isSpace

mutual

/-- A value at the start of the text and the text after it, in at most `steps` steps. -/
def value? : Nat → Text → Option (Json × Text)
  | 0, _ => none
  | steps + 1, t =>
      match skipSpace t with
      | '[' :: rest => match skipSpace rest with
          | ']' :: rest => some (.array [], rest)
          | rest => (elements? steps rest).map fun (es, rest) => (.array es, rest)
      | '\x7b' :: rest => match skipSpace rest with
          | '\x7d' :: rest => some (.object [], rest)
          | rest => (members? steps rest).map fun (ms, rest) => (.object ms, rest)
      | '"' :: rest => (stringToken? rest).map fun (s, rest) => (.string s, rest)
      | 'n' :: 'u' :: 'l' :: 'l' :: rest => some (.null, rest)
      | 't' :: 'r' :: 'u' :: 'e' :: rest => some (.bool true, rest)
      | 'f' :: 'a' :: 'l' :: 's' :: 'e' :: rest => some (.bool false, rest)
      | rest => (numeral? rest).map fun (numeral, rest) => (.number numeral, rest)

/-- One element or more, and the closing bracket. -/
def elements? : Nat → Text → Option (List Json × Text)
  | 0, _ => none
  | steps + 1, t => do
      let (e, rest) ← value? steps t
      match skipSpace rest with
      | ']' :: rest => some ([e], rest)
      | ',' :: rest => (elements? steps rest).map fun (es, rest) => (e :: es, rest)
      | _ => none

/-- One member or more, and the closing bracket. -/
def members? : Nat → Text → Option (List (Option Text × Json) × Text)
  | 0, _ => none
  | steps + 1, t =>
      match skipSpace t with
      | '"' :: rest => do
          let (name, rest) ← stringToken? rest
          match skipSpace rest with
          | ':' :: rest => do
              let (v, rest) ← value? steps rest
              match skipSpace rest with
              | '\x7d' :: rest => some ([(name, v)], rest)
              | ',' :: rest => (members? steps rest).map fun (ms, rest) => ((name, v) :: ms, rest)
              | _ => none
          | _ => none
      | _ => none

end

/-- The value that is the whole text, blanks around it aside. -/
def parse? (t : Text) : Option Json :=
  match value? (t.length + 1) t with
  | some (v, rest) => if (skipSpace rest).isEmpty then some v else none
  | none => none

end CobolAtlas.Json
