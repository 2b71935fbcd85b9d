/-
# CobolAtlas.Source.Literal -- quoted literals made blank

A literal opens with one of the two quotes and closes with the same quote, or at the end of its line.
`mask` puts blanks for the characters inside literals, one for each byte, so that a keyword inside a
literal is no keyword and every other character keeps its byte.
-/
import CobolAtlas.Source.Name

namespace CobolAtlas.Literal

set_option autoImplicit false

/-- The quote of the literal that is open after `c`, if one was open (`quote`) before it. -/
def next (quote : Option Char) (c : Char) : Option Char :=
  match quote with
  | some q => if c == q || c == '\n' then none else some q
  | none => if Name.isQuote c then some c else none

/-- What is shown for `c`: itself outside literals and for the end of a literal, else a blank for each of
its bytes. -/
def shown (quote : Option Char) (c : Char) : Text :=
  match quote with
  | some q => if c == q || c == '\n' then [c] else List.replicate c.utf8Size ' '
  | none => [c]

/-- The masked text when `quote` is open before it. -/
def maskFrom : Option Char → Text → Text
  | _, [] => []
  | quote, c :: t => shown quote c ++ maskFrom (next quote c) t

/-- The text with the contents of its literals made blank. -/
def mask (t : Text) : Text := maskFrom none t

theorem byteLength_replicate_blank (n : Nat) : Text.byteLength (List.replicate n ' ') = n := by
  induction n with
  | zero => rfl
  | succ n ih =>
    have one : (' ' : Char).utf8Size = 1 := rfl
    simp [List.replicate_succ, ih, one, Nat.add_comm]

theorem byteLength_shown (quote : Option Char) (c : Char) :
    Text.byteLength (shown quote c) = c.utf8Size := by
  cases quote with
  | none => simp [shown]
  | some q =>
    simp only [shown]
    split
    · simp
    · exact byteLength_replicate_blank _

/-- A mask keeps every byte's place. -/
theorem byteLength_maskFrom (quote : Option Char) (t : Text) :
    Text.byteLength (maskFrom quote t) = Text.byteLength t := by
  induction t generalizing quote with
  | nil => rfl
  | cons c t ih => simp [maskFrom, byteLength_shown, ih]

end CobolAtlas.Literal
