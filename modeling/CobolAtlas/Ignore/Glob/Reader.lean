/-
# CobolAtlas.Ignore.Glob.Reader -- reading patterns

`Glob.parse?` reads a pattern.  A backslash takes the next character literally.  A bracket that opens a class
which is never closed is a bracket, and so is every bracket after it.  A range of a class whose high end is
below its low end spoils the pattern as soon as it is read.
-/
import CobolAtlas.Ignore.Glob.Basic

namespace CobolAtlas.Glob

set_option autoImplicit false

/-! ## Patterns half read -/

/-- The branches of a group that is being read, the tokens of the last in reverse. -/
structure Frame where
  branches : List Glob
  tokens : List Token

/-- A pattern being read: the groups around the present one, the present one, the character before, and
whether a bracket has turned out to open no class. -/
structure Reading where
  outer : List Frame
  frame : Frame
  previous : Option Char
  bracketsLiteral : Bool

namespace Reading

/-- One more token. -/
def push (r : Reading) (t : Token) : Reading :=
  { r with frame := { r.frame with tokens := t :: r.frame.tokens } }

/-- The character that was read last. -/
def passed (r : Reading) (c : Char) : Reading := { r with previous := some c }

/-- Is a group open? -/
def inGroup (r : Reading) : Bool := !r.outer.isEmpty

/-- The last token replaced by one for directories; what stood for directories stays. -/
def replaceLast (r : Reading) (t : Token) : Reading :=
  match r.frame.tokens with
  | .anyDirectories :: _ | .anyBelow :: _ => r
  | _ :: tokens => { r with frame := { r.frame with tokens := t :: tokens } }
  | [] => r

end Reading

/-! ## Classes -/

/-- What reading a class comes to. -/
inductive ClassReading where
  | closed (ranges : List (Char × Char)) (rest : Text)
  | unclosed
  /-- A range runs down. -/
  | descending

/-- Reads the ranges of a class up to its closing bracket.  The class starts anew (`first`), or a hyphen has
opened a range (`inRange`) whose low end is that of the last range; ranges are listed last first. -/
def readClass : Bool → Bool → List (Char × Char) → Text → ClassReading
  | _, _, _, [] => .unclosed
  | first, inRange, ranges, c :: rest =>
      if c = ']' ∧ !first then .closed (if inRange then ('-', '-') :: ranges else ranges).reverse rest
      else if c = '-' ∧ !first ∧ !inRange then readClass false true ranges rest
      else match inRange, ranges with
        | true, (low, _) :: ranges =>
            if low ≤ c then readClass false false ((low, c) :: ranges) rest else .descending
        | _, _ => readClass false false ((c, c) :: ranges) rest

/-- Splits off what negates a class after its opening bracket. -/
def classOpening (t : Text) : Bool × Text :=
  match t with
  | '!' :: rest | '^' :: rest => (true, rest)
  | rest => (false, rest)

/-! ## Patterns -/

/-- A star after the first one, `t` being what follows both. -/
def doubleStar (r : Reading) (t : Text) : Reading × Text :=
  let twoNames := ((r.push .anyName).push .anyName).passed '*'
  if r.frame.tokens.isEmpty then
    match t with
    | [] => (r.push .anyDirectories, [])
    | '/' :: rest => ((r.push .anyDirectories).passed '/', rest)
    | _ => (twoNames, t)
  else if r.previous = some '/' ∨ (r.inGroup ∧ (r.previous = some ',' ∨ r.previous = some '\x7b')) then
    match t with
    | [] => (r.replaceLast .anyBelow, [])
    | '/' :: rest => ((r.replaceLast .anyBetween).passed '/', rest)
    | c :: _ =>
        if r.inGroup ∧ (c = ',' ∨ c = '\x7d') then ((r.replaceLast .anyBelow).passed '*', t)
        else (twoNames, t)
  else (twoNames, t)

/-- The end of a branch. -/
def Frame.close (f : Frame) : List Glob := f.branches ++ [f.tokens.reverse]

/-- Reads a pattern in at most `steps` steps. -/
def read? : Nat → Reading → Text → Option Glob
  | 0, _, _ => none
  | _ + 1, r, [] => if r.inGroup then none else some r.frame.tokens.reverse
  | steps + 1, r, c :: rest =>
      if c = '?' then read? steps ((r.push .anyByte).passed c) rest
      else if c = '*' then
        match rest with
        | '*' :: rest => let next := doubleStar r rest; read? steps next.1 next.2
        | _ => read? steps ((r.push .anyName).passed c) rest
      else if c = '[' ∧ !r.bracketsLiteral then
        let (negated, body) := classOpening rest
        match readClass true false [] body with
        | .closed ranges rest => read? steps ((r.push (.oneOf negated ranges)).passed ']') rest
        | .unclosed => read? steps (({ r with bracketsLiteral := true }.push (.literal c)).passed c) rest
        | .descending => none
      else if c = '\x7b' then
        read? steps { r with outer := r.frame :: r.outer, frame := ⟨[], []⟩, previous := some c } rest
      else if c = '\x7d' then
        match r.outer with
        | [] => none
        | frame :: outer =>
            read? steps
              (({ r with outer := outer, frame := frame }.push (.alternatives r.frame.close)).passed c) rest
      else if c = ',' ∧ r.inGroup then
        read? steps ({ r with frame := ⟨r.frame.close, []⟩ }.passed c) rest
      else if c = '\\' then
        match rest with
        | [] => none
        | d :: rest => read? steps ((r.push (.literal d)).passed d) rest
      else read? steps ((r.push (.literal c)).passed c) rest

/-- The glob that a pattern writes. -/
def parse? (pattern : Text) : Option Glob :=
  read? (pattern.length + 1) ⟨[], ⟨[], []⟩, none, false⟩ pattern

end CobolAtlas.Glob
