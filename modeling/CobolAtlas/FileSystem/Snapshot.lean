/-
# CobolAtlas.FileSystem.Snapshot -- files gathered before a run and compared after it

`place` adds an entry together with the directories above it; `changes` lists what a later file system has
that an earlier one had not.
-/
import CobolAtlas.FileSystem.Write

namespace CobolAtlas.FileSystem

set_option autoImplicit false

/-- The file system with an entry at a path, in directories that are made if need be.  A file is placed where a
link leads, a link where its path says. -/
def place (fs : FileSystem) (p : Path) (e : Entry) : FileSystem :=
  let fs := match p.parent with
    | some above => (fs.makeDirectories above).2
    | none => fs
  match e with
  | .directory => (fs.makeDirectories p).2
  | .file .. => match fs.resolveNew p with
      | .ok l => fs.put l e
      | .error _ => fs
  | .link _ => match p.parent.bind fun above => (fs.resolve above).toOption, p.fileName with
      | some above, some name => fs.put (above ++ [name]) e
      | _, _ => fs

/-- Is the entry another than the one that was there?  Directories and links do not differ among themselves, and
files by their content alone. -/
def differs (before : Option Entry) (e : Entry) : Bool :=
  match before, e with
  | some (.file old ..), .file new .. => old != new
  | some .directory, .directory => false
  | some (.link _), .link _ => false
  | _, _ => true

/-- The entries that are new, or other than before. -/
def changes (before after : FileSystem) : List (Location × Entry) :=
  after.entries.filter fun (l, e) => differs (before.entry? l) e

end CobolAtlas.FileSystem
