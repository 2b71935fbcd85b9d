/-
# CobolAtlas.FileSystem.Basic -- files, directories and links as a value

A `FileSystem` lists its entries by location, the names from the root down.  What the library asks of the
outside world is a function on this value: `resolve` follows a written path through links, `..` and `.`
to a location, and fails as a look-up of that path would; `resolveNew` does the same for a file that may be
missing yet.

* At most forty links are followed for one path.
* A path holds no NUL and has fewer than 4096 bytes, a name in it at most 255.
-/
import CobolAtlas.Path.Basic
import CobolAtlas.Text.Utf8

namespace CobolAtlas

set_option autoImplicit false

/-- The names from the root down to an entry. -/
abbrev Location := List Text

/-- A file, a directory or a symbolic link.  Files know when they were modified and whether they may be
executed. -/
inductive Entry where
  | file (content : Bytes) (modified : Nat) (executable : Bool)
  | directory
  | link (target : Path)

/-- The present time, and when the directory at a location was modified.  Times count some unit from some start. -/
structure Clock where
  now : Nat
  directoryModified : Location → Nat

/-- At that time, with every directory just modified. -/
instance : Coe Nat Clock := ⟨fun now => ⟨now, fun _ => now⟩⟩

instance (now : Nat) : OfNat Clock now := ⟨now⟩

/-- The clock after the directory at a location is modified. -/
def Clock.touch (c : Clock) (l : Location) : Clock :=
  { c with directoryModified := fun l' => if l' = l then c.now else c.directoryModified l' }

/-- Entries by location, the directory that relative paths start from, and the clock. -/
structure FileSystem where
  entries : List (Location × Entry)
  current : Location
  clock : Clock

/-- Why a path leads nowhere. -/
inductive LookupError where
  | missing
  | notDirectory
  | tooManyLinks
  /-- The path, or a name in it, is too long or holds a NUL. -/
  | unnameable
deriving DecidableEq

namespace FileSystem

/-- What is at a location; the root is a directory. -/
def entry? (fs : FileSystem) (l : Location) : Option Entry :=
  if l.isEmpty then some .directory else fs.entries.lookup l

/-! ## Names -/

/-- Can the path be handed to the system? -/
def isNameable (p : Path) : Bool := !(Path.bytesOf p.text).contains 0 && (Path.bytesOf p.text).length < 4096

/-- Can a directory hold the name? -/
def isShort (name : Text) : Bool := (Path.bytesOf name).length ≤ 255

/-- The pieces of a path between separators. -/
def stepsOf (p : Path) : List Text := Text.splitOn '/' p.text

/-! ## Looking up -/

/-- Where `steps` lead from the directory `here`; `jump` follows the steps of a link's target, from where
they start.  The last name may be missing if `mayMiss`. -/
def follow (fs : FileSystem) (mayMiss : Bool)
    (jump : Location → List Text → Except LookupError Location) :
    Location → List Text → Except LookupError Location
  | here, [] => .ok here
  | here, step :: rest =>
      if step = [] ∨ step = ['.'] then follow fs mayMiss jump here rest
      else if step = ['.', '.'] then follow fs mayMiss jump here.dropLast rest
      else if !isShort step then .error .unnameable
      else match fs.entry? (here ++ [step]) with
        | none => if mayMiss ∧ rest.isEmpty then .ok (here ++ [step]) else .error .missing
        | some .directory => follow fs mayMiss jump (here ++ [step]) rest
        | some (.file ..) => if rest.isEmpty then .ok (here ++ [step]) else .error .notDirectory
        | some (.link target) => jump (if target.isAbsolute then [] else here) (stepsOf target ++ rest)

/-- Where `steps` lead from a directory, with at most that many links to follow. -/
def followLinks (fs : FileSystem) (mayMiss : Bool) :
    Nat → Location → List Text → Except LookupError Location
  | 0 => fs.follow mayMiss fun _ _ => .error .tooManyLinks
  | links + 1 => fs.follow mayMiss (followLinks fs mayMiss links)

/-- Where the steps of a path lead from a directory. -/
def destination (fs : FileSystem) (here : Location) (steps : List Text) : Except LookupError Location :=
  fs.followLinks false 40 here steps

/-- Where a path starts. -/
def origin (fs : FileSystem) (p : Path) : Location := if p.isAbsolute then [] else fs.current

/-- The location that a path leads to, links followed; what it names may be missing if `mayMiss`. -/
def lookUp (fs : FileSystem) (mayMiss : Bool) (p : Path) : Except LookupError Location :=
  if p.text.isEmpty then .error .missing
  else if !isNameable p then .error .unnameable
  else fs.followLinks mayMiss 40 (fs.origin p) (stepsOf p)

/-- The location of what a path names. -/
def resolve (fs : FileSystem) (p : Path) : Except LookupError Location := fs.lookUp false p

/-- The location that a file of this path has or would have: a link at its end counts for its target. -/
def resolveNew (fs : FileSystem) (p : Path) : Except LookupError Location := fs.lookUp true p

/-- The same files, with relative paths starting from a directory. -/
def enter (fs : FileSystem) (d : Location) : FileSystem := { fs with current := d }

/-! ## What a path names -/

/-- The entry that a path names, links followed. -/
def find? (fs : FileSystem) (p : Path) : Option Entry :=
  match fs.resolve p with
  | .ok l => fs.entry? l
  | .error _ => none

/-- Does the path name anything? -/
def has (fs : FileSystem) (p : Path) : Bool := (fs.find? p).isSome

/-- Does the path name a regular file? -/
def isFile (fs : FileSystem) (p : Path) : Bool :=
  match fs.find? p with
  | some (.file ..) => true
  | _ => false

/-- Does the path name a directory? -/
def isDirectory (fs : FileSystem) (p : Path) : Bool :=
  match fs.find? p with
  | some .directory => true
  | _ => false

/-- The content of the file that a path names. -/
def read? (fs : FileSystem) (p : Path) : Option Bytes :=
  match fs.find? p with
  | some (.file content ..) => some content
  | _ => none

/-- When the entry at a location was modified. -/
def modifiedAt? (fs : FileSystem) (l : Location) : Option Nat :=
  match fs.entry? l with
  | some (.file _ modified _) => some modified
  | some .directory => some (fs.clock.directoryModified l)
  | _ => none

/-- When what a path names was modified. -/
def modified? (fs : FileSystem) (p : Path) : Option Nat := (fs.resolve p).toOption.bind fs.modifiedAt?

/-- The absolute path of a location. -/
def pathOf (l : Location) : Path := ⟨'/' :: Text.joinWith ['/'] l⟩

/-- The absolute path of what a path names, without links. -/
def canonical? (fs : FileSystem) (p : Path) : Option Path :=
  match fs.resolve p with
  | .ok l => some (pathOf l)
  | .error _ => none

end FileSystem

end CobolAtlas
