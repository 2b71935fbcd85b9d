/-
# CobolAtlas.Ignore.Rule -- the rules of one ignore file

A line of an ignore file is a rule: a glob for paths below the directory of the file, which either leaves
these paths out or, after a `!`, takes them back in.

* A rule without a separator in it matches names at any depth; a separator at its front or inside ties it
  to the directory of the file.
* A separator at its end restricts it to directories.
* Blank lines, lines that begin with `#` and lines whose glob cannot be read are no rules.
* One glob that nests too deeply makes the whole file count for nothing.

Of all rules of a file that match a path the last decides (`verdict?`).
-/
import CobolAtlas.Ignore.Glob.Reader
import CobolAtlas.Path.Bytes
import CobolAtlas.Text.Blank

namespace CobolAtlas.Ignore

set_option autoImplicit false

/-- What a rule says of a path. -/
inductive Verdict where
  | leftOut
  | takenIn
deriving DecidableEq

/-- One rule of an ignore file. -/
structure Rule where
  glob : Glob
  directoriesOnly : Bool
  verdict : Verdict

namespace Rule

/-! ## Lines -/

/-- A line without the blanks at its end, unless a backslash keeps the last of them. -/
def trimmed (line : Text) : Text :=
  if ['\\', ' '].isSuffixOf line then line else Text.trimEnd line

/-- Splits off what opens a rule: `!`, and a separator that ties it to the directory.  A backslash before `!`
or `#` makes that character a part of the glob. -/
def opening (line : Text) : Verdict × Bool × Text :=
  match line with
  | '\\' :: '!' :: rest => (.leftOut, false, '!' :: rest)
  | '\\' :: '#' :: rest => (.leftOut, false, '#' :: rest)
  | '!' :: '/' :: rest => (.takenIn, true, rest)
  | '!' :: rest => (.takenIn, false, rest)
  | '/' :: rest => (.leftOut, true, rest)
  | rest => (.leftOut, false, rest)

/-- Splits off a separator at the end, and a backslash before it. -/
def closing (body : Text) : Bool × Text :=
  if body.getLast? = some '/' then
    let body := body.dropLast
    (true, if body.getLast? = some '\\' then body.dropLast else body)
  else (false, body)

/-- Does the pattern begin with any directories? -/
def beginsAnywhere (pattern : Text) : Bool :=
  ['*', '*', '/'].isPrefixOf pattern || pattern == ['*', '*']

/-- The pattern for whole paths: names match at any depth, and what is below a directory does not include the
directory itself. -/
def wholePath (tied : Bool) (pattern : Text) : Text :=
  let pattern :=
    if tied ∨ pattern.contains '/' ∨ beginsAnywhere pattern then pattern else '*' :: '*' :: '/' :: pattern
  if ['/', '*', '*'].isSuffixOf pattern then pattern ++ ['/', '*'] else pattern

/-- The rule of a line. -/
def ofLine? (line : Text) : Option Rule :=
  if line.head? = some '#' then none
  else
    let line := trimmed line
    if line = [] then none
    else
      let (verdict, tied, body) := opening line
      let (directoriesOnly, pattern) := closing body
      (Glob.parse? (wholePath tied pattern)).map fun glob => ⟨glob, directoriesOnly, verdict⟩

/-! ## Files -/

/-- The whole lines before the first one that is no text. -/
def readableLines (content : Bytes) : List Text :=
  let characters := Utf8.decode content
  let readable := (characters.takeWhile (·.isSome)).filterMap id
  if characters.all (·.isSome) then Text.lines readable
  else Text.lines (Text.dropEndWhile (· != '\n') readable)

/-- The lines with the byte order marks before the first one left out. -/
def dropMarks : List Text → List Text
  | [] => []
  | first :: rest => first.dropWhile (· == Char.ofNat 0xFEFF) :: rest

/-- The rules that a file holds, in order; none if a glob among them nests too deeply. -/
def ofFile (content : Bytes) : List Rule :=
  let rules := (dropMarks (readableLines content)).filterMap ofLine?
  if rules.all fun r => r.glob.depth ≤ Glob.deepest then rules else []

/-! ## Verdicts -/

/-- Does the rule apply to a path below the directory of its file? -/
def applies (r : Rule) (path : Text) (isDirectory : Bool) : Bool :=
  (!r.directoriesOnly || isDirectory) && r.glob.isMatch (Path.bytesOf path)

/-- What the rules say of a path; nothing if none applies. -/
def verdict? (rules : List Rule) (path : Text) (isDirectory : Bool) : Option Verdict :=
  (rules.reverse.find? (·.applies path isDirectory)).map (·.verdict)

end Rule

end CobolAtlas.Ignore
