/-
# CobolAtlas.Ignore.Glob.Basic -- patterns for paths

A glob is a list of tokens.  `?` stands for one byte and `*` for any bytes, neither for a separator; `**`
between separators stands for any directories; a class stands for one byte, which may be a separator;
braces enclose alternatives.

`Glob.isMatch` tells whether a glob matches all of a path.  Token by token it keeps the places of the path
that can have been reached (`Glob.after`), so that it takes no longer than tokens times bytes.
`Glob.depth` measures how deeply the parts of a glob nest.
-/
import CobolAtlas.Text.Utf8

namespace CobolAtlas

set_option autoImplicit false

/-- One part of a pattern. -/
inductive Glob.Token where
  | literal (c : Char)
  | anyByte
  | anyName
  /-- Any directories before the rest. -/
  | anyDirectories
  /-- A separator and anything after it. -/
  | anyBelow
  /-- Separators with any directories between them. -/
  | anyBetween
  | oneOf (negated : Bool) (ranges : List (Char × Char))
  | alternatives (branches : List (List Glob.Token))

/-- A pattern for paths. -/
abbrev Glob := List Glob.Token

namespace Glob

/-! ## Empty alternatives -/

mutual

/-- Does the branch write nothing, so that it is no alternative? -/
def Token.isVoid : Token → Bool
  | .alternatives branches => allVoid branches
  | _ => false

/-- Do all tokens write nothing? -/
def void : List Token → Bool
  | [] => true
  | t :: ts => t.isVoid && void ts

/-- Do all branches write nothing? -/
def allVoid : List (List Token) → Bool
  | [] => true
  | g :: gs => void g && allVoid gs

end

/-! ## Places -/

/-- The places of a path that can have been reached: one before each byte, and one after the last. -/
abbrev Places := List Bool

namespace Places

/-- The place before the first byte of a path. -/
def start (path : Bytes) : Places := true :: path.map fun _ => false

/-- No place. -/
def none (p : Places) : Places := p.map fun _ => false

/-- The places of either. -/
def either (p q : Places) : Places := List.zipWith (· || ·) p q

/-- One byte further, where that byte will do. -/
def step (path : Bytes) (will : UInt8 → Bool) (p : Places) : Places :=
  false :: List.zipWith (fun reached b => reached && will b) p path

/-- Any number of bytes further that will do; `reached` tells whether the first place is reached from what
comes before it. -/
def spreadFrom (will : UInt8 → Bool) : Bool → Bytes → Places → Places
  | _, _, [] => []
  | reached, [], p :: _ => [reached || p]
  | reached, b :: path, p :: ps => (reached || p) :: spreadFrom will ((reached || p) && will b) path ps

/-- Any number of bytes further that will do. -/
def spread (path : Bytes) (will : UInt8 → Bool) (p : Places) : Places := spreadFrom will false path p

/-- Is the place after the last byte reached? -/
def atEnd (p : Places) : Bool := p.getLast? == some true

end Places

/-! ## Matching -/

/-- The byte of the separator. -/
def separator : UInt8 := 47

/-- Is the byte in the range?  The ends of a range are characters: between the last byte of its low end
and the first byte of its high end every byte counts, and of their other bytes each for itself. -/
def inRange (b : UInt8) (r : Char × Char) : Bool :=
  let low := String.utf8EncodeChar r.1
  let high := String.utf8EncodeChar r.2
  if r.1 = r.2 then low.contains b
  else low.dropLast.contains b || (high.drop 1).contains b ||
    ((low.getLast?.getD 0) ≤ b && b ≤ (high.head?.getD 0))

mutual

/-- The places after a token. -/
def Token.after (path : Bytes) : Token → Places → Places
  | .literal c, p => (String.utf8EncodeChar c).foldl (fun p b => p.step path (· == b)) p
  | .anyByte, p => p.step path (· != separator)
  | .anyName, p => p.spread path (· != separator)
  | .anyDirectories, p => p.either ((p.spread path fun _ => true).step path (· == separator))
  | .anyBelow, p => (p.step path (· == separator)).spread path fun _ => true
  | .anyBetween, p =>
      let p := p.step path (· == separator)
      p.either ((p.spread path fun _ => true).step path (· == separator))
  | .oneOf negated ranges, p => p.step path fun b => ranges.any (inRange b) != negated
  | .alternatives branches, p => if allVoid branches then p else afterBranches path branches p

/-- The places after all tokens. -/
def after (path : Bytes) : List Token → Places → Places
  | [], p => p
  | t :: ts, p => after path ts (t.after path p)

/-- The places after one of the branches that write something. -/
def afterBranches (path : Bytes) : List (List Token) → Places → Places
  | [], p => p.none
  | g :: gs, p => (if void g then p.none else after path g p).either (afterBranches path gs p)

end

/-- Does the glob match all of the path?  A lone `**` matches everything. -/
def isMatch (g : Glob) (path : Bytes) : Bool :=
  match g with
  | [.anyDirectories] => true
  | _ => (after path g (.start path)).atEnd

/-! ## Nesting -/

/-- The number of parts that a token adds to a sequence: each byte of a character is one. -/
def Token.parts : Token → Nat
  | .literal c => c.utf8Size
  | .anyBelow => 2
  | .alternatives branches => if allVoid branches then 0 else 1
  | _ => 1

/-- The number of bytes and ranges of bytes that a range of characters comes to. -/
def rangeParts (r : Char × Char) : Nat :=
  if r.1 = r.2 then r.1.utf8Size else r.1.utf8Size + r.2.utf8Size - 1

mutual

/-- How many levels there are inside a token: a group, a choice between several branches, a repetition, a
class, several members of a class and a sequence of several parts are one level each. -/
def Token.depth : Token → Nat
  | .literal _ => 0
  | .anyByte => 1
  | .anyName => 2
  | .anyDirectories => 4
  | .anyBelow => 1
  | .anyBetween => 4
  | .oneOf _ ranges => if (ranges.map rangeParts).sum = 1 then 1 else 2
  | .alternatives branches =>
      if allVoid branches then 0
      else 1 + (if (branches.filter fun g => !void g).length = 1 then 0 else 1) + branchDepth branches

/-- The most levels that there are inside one of the tokens. -/
def tokenDepth : List Token → Nat
  | [] => 0
  | t :: ts => max t.depth (tokenDepth ts)

/-- The most levels that there are in one of the branches. -/
def branchDepth : List (List Token) → Nat
  | [] => 0
  | g :: gs => max ((if (g.map Token.parts).sum ≤ 1 then 0 else 1) + tokenDepth g) (branchDepth gs)

end

/-- How many levels there are in a glob, which is itself a sequence. -/
def depth (g : Glob) : Nat := 1 + tokenDepth g

/-- The most levels that a glob may have. -/
def deepest : Nat := 250

end Glob

end CobolAtlas
