/-
# CobolAtlas.FileSystem.Write -- directories made and files written

`makeDirectories` makes a directory and, where they are missing, those above it; what was made before a
failure stays.  `write?` replaces the content of a file, or makes the file in a directory that is there;
a link at the end of the path is followed.
-/
import CobolAtlas.FileSystem.Basic

namespace CobolAtlas.FileSystem

set_option autoImplicit false

/-- The file system with an entry at a location, in place of what was there.  A new entry modifies the directory that
it is in. -/
def put (fs : FileSystem) (l : Location) (e : Entry) : FileSystem :=
  if fs.entries.any (·.1 == l) then
    { fs with entries := fs.entries.map fun old => if old.1 == l then (l, e) else old }
  else { fs with entries := fs.entries ++ [(l, e)], clock := (fs.clock.touch l.dropLast).touch l }

/-- Splits off the last step that is not empty; what is left leads to the directory it is in. -/
def splitLast? (steps : List Text) : Option (List Text × Text) :=
  match steps.reverse.dropWhile (·.isEmpty) with
  | [] => none
  | last :: before => some (before.reverse, last)

/-- The outcome of making one directory. -/
inductive Made where
  | made (fs : FileSystem)
  /-- The directory above is missing. -/
  | missing
  | refused

/-- Makes one directory whose parent is there. -/
def makeDirectory (fs : FileSystem) (p : Path) : Made :=
  match splitLast? (stepsOf p) with
  | none => if p.text.isEmpty then .missing else .refused
  | some (before, last) =>
      if !isNameable p then .refused
      else match fs.destination (fs.origin p) before with
        | .error .missing => .missing
        | .error _ => .refused
        | .ok parent =>
            if last = ['.'] ∨ last = ['.', '.'] ∨ !isShort last then .refused
            else match fs.entry? parent with
              | some .directory =>
                  if (fs.entry? (parent ++ [last])).isSome then .refused
                  else .made (fs.put (parent ++ [last]) .directory)
              | _ => .refused

/-- Makes a directory again after what was above it was made; a directory that is there will do. -/
def settle (fs : FileSystem) (p : Path) : Bool × FileSystem :=
  match fs.makeDirectory p with
  | .made fs => (true, fs)
  | _ => (fs.isDirectory p, fs)

/-- Makes a directory and at most `levels` levels above it; tells whether it is there in the end. -/
def makeLevels : Nat → FileSystem → Path → Bool × FileSystem
  | 0, fs, _ => (false, fs)
  | levels + 1, fs, p =>
      if p.text.isEmpty then (true, fs)
      else match fs.makeDirectory p with
        | .made fs => (true, fs)
        | .refused => (fs.isDirectory p, fs)
        | .missing => match p.parent with
            | none => (false, fs)
            | some above => match makeLevels levels fs above with
                | (false, fs) => (false, fs)
                | (true, fs) => fs.settle p

/-- Makes a directory and those above it; tells whether it is there in the end. -/
def makeDirectories (fs : FileSystem) (p : Path) : Bool × FileSystem :=
  makeLevels (p.text.length + 1) fs p

/-- The file system with the content written; `none` where no file can be. -/
def write? (fs : FileSystem) (p : Path) (content : Bytes) : Option FileSystem := do
  let l ← (fs.resolveNew p).toOption
  match fs.entry? l with
  | some .directory => none
  | some (.file _ _ executable) => some (fs.put l (.file content fs.clock.now executable))
  | _ => some (fs.put l (.file content fs.clock.now false))

end CobolAtlas.FileSystem
