/-
# CobolAtlas.Path.Basic -- paths by their components

A path keeps the text it was written with and is compared by its components: repeated and trailing
separators and inner `.` components do not count, `..` is kept.  A written path is cut at its
separators into pieces, each of which is a component or counts for nothing (`pieces`); `parent`,
`relativeTo?` and `withExtension` cut whole pieces, so that what they keep is spelled as before.
-/
import CobolAtlas.Path.Bytes

namespace CobolAtlas

set_option autoImplicit false

/-- A path as it was written. -/
structure Path where
  text : Text
deriving DecidableEq, Inhabited

/-- One step of a path. -/
inductive Component where
  | root
  | current
  | parent
  | name (text : Text)
deriving DecidableEq

namespace Component

/-- Names are ordered by their bytes; texts that write the same bytes, by their characters. -/
def namePrecedes (a b : Text) : Bool :=
  let bytes (name : Text) : List Nat := (Path.bytesOf name).map UInt8.toNat
  decide (bytes a < bytes b ∨ bytes a = bytes b ∧ a < b)

/-- Steps of other kinds come before names. -/
def precedes : Component → Component → Bool
  | .root, .root => false
  | .root, _ => true
  | .current, .root => false
  | .current, .current => false
  | .current, _ => true
  | .parent, .name _ => true
  | .parent, _ => false
  | .name a, .name b => namePrecedes a b
  | .name _, _ => false

end Component

namespace Path

/-- The path as text: what is no text in it is replaced. -/
def shown (p : Path) : Path := ⟨shownText p.text⟩

/-- Is the path text, with nothing to replace? -/
def IsText (p : Path) : Prop := p.shown = p

instance (p : Path) : Decidable p.IsText := inferInstanceAs (Decidable (p.shown = p))

/-! ## Components -/

/-- Is the path written from the root? -/
def isAbsolute (p : Path) : Bool := p.text.head? == some '/'

/-- The component that a piece between separators stands for; `.` is one only where `leading`. -/
def componentOf (leading : Bool) (piece : Text) : Option Component :=
  if piece = [] then none
  else if piece = ['.'] then (if leading then some .current else none)
  else if piece = ['.', '.'] then some .parent
  else some (.name piece)

/-- The written pieces below the root, each with its component if it has one. -/
def pieces (p : Path) : List (Text × Option Component) :=
  let body := if p.isAbsolute then p.text.drop 1 else p.text
  match Text.splitOn '/' body with
  | [] => []
  | first :: rest =>
      (first, componentOf (!p.isAbsolute) first) :: rest.map fun piece => (piece, componentOf false piece)

/-- The root, if the path is absolute. -/
def rootComponents (p : Path) : List Component := if p.isAbsolute then [.root] else []

/-- The steps of the path. -/
def components (p : Path) : List Component := p.rootComponents ++ p.pieces.filterMap (·.2)

/-- Do the two paths take the same steps? -/
def same (p q : Path) : Bool := p.components == q.components

/-- Does `p` begin with all steps of `q`? -/
def startsWith (p q : Path) : Bool := q.components.isPrefixOf p.components

/-- Order by components. -/
def componentsPrecede : List Component → List Component → Bool
  | [], [] => false
  | [], _ :: _ => true
  | _ :: _, [] => false
  | a :: as, b :: bs => if a = b then componentsPrecede as bs else a.precedes b

/-- Does `p` come before `q`, component by component? -/
def precedes (p q : Path) : Bool := componentsPrecede p.components q.components

/-! ## Cutting pieces -/

/-- Without the pieces at the end that are no components. -/
def dropIdle (ps : List (Text × Option Component)) : List (Text × Option Component) :=
  (ps.reverse.dropWhile (·.2.isNone)).reverse

/-- The path written by a root and pieces. -/
def ofPieces (root : Bool) (ps : List (Text × Option Component)) : Path :=
  ⟨(if root then ['/'] else []) ++ Text.joinWith ['/'] (ps.map (·.1))⟩

/-- The path without its last component, unless that is the root or there is none. -/
def parent (p : Path) : Option Path :=
  match dropIdle p.pieces with
  | [] => none
  | ps => some (ofPieces p.isAbsolute (dropIdle ps.dropLast))

/-- The last component, if it is a name. -/
def fileName (p : Path) : Option Text :=
  match (dropIdle p.pieces).getLast? with
  | some (_, some (.name n)) => some n
  | _ => none

/-- A file name before and after its last dot; a leading dot does not count. -/
def splitName (n : Text) : Text × Option Text :=
  let stem := (n.reverse.dropWhile (· != '.')).drop 1
  if stem = [] then (n, none) else (stem.reverse, some (n.reverse.takeWhile (· != '.')).reverse)

/-- The file name without its extension. -/
def fileStem (p : Path) : Option Text := p.fileName.map fun n => (splitName n).1

/-- What follows the last dot of the file name. -/
def extension (p : Path) : Option Text := p.fileName.bind fun n => (splitName n).2

/-- The path without the extension of its file name, the dot kept: as many characters as the extension has are
cut off at the end. -/
def withoutExtension (p : Path) : Path :=
  match p.extension with
  | none => p
  | some ext => ⟨p.text.take (p.text.length - ext.length)⟩

/-- The path with the extension of its file name replaced or added.  Where no file name is left without the
old extension, nothing is added: `..b` becomes `..`. -/
def withExtension (p : Path) (ext : Text) : Path :=
  let cut := p.withoutExtension
  match cut.fileStem with
  | none => cut
  | some stem =>
      ⟨(ofPieces cut.isAbsolute ((dropIdle cut.pieces).dropLast ++ [(stem, none)])).text ++ '.' :: ext⟩

/-- `q` below `p`; an absolute `q` stands for itself. -/
def join (p q : Path) : Path :=
  if q.isAbsolute then q
  else if p.text = [] ∨ p.text.getLast? = some '/' then ⟨p.text ++ q.text⟩
  else ⟨p.text ++ '/' :: q.text⟩

/-- The pieces after the first `n` components. -/
def dropComponents : Nat → List (Text × Option Component) → List (Text × Option Component)
  | 0, ps => ps
  | _ + 1, [] => []
  | n + 1, (_, some _) :: ps => dropComponents n ps
  | n + 1, (_, none) :: ps => dropComponents (n + 1) ps

/-- What remains of `p` after the steps of `base`, if it begins with them. -/
def relativeTo? (p base : Path) : Option Path :=
  if p.startsWith base then
    if base.components = [] then some (ofPieces p.isAbsolute (dropIdle p.pieces))
    else
      let rest := dropComponents (base.components.length - p.rootComponents.length) p.pieces
      some (ofPieces false (dropIdle (rest.dropWhile (·.2.isNone))))
  else none

end Path

end CobolAtlas
