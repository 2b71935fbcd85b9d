/-
# CobolAtlas.Repository.Sources -- the source files of a repository

Of what a walk from the root comes to, `sourcesOf` takes the regular files whose extension is a configured one, case
of ASCII letters aside, and that stand in no skipped directory below the root.  They come in the order of their
components.  What cannot be read, the root itself and entries of unknown kind are passed over.
-/
import CobolAtlas.Repository.Listing
import CobolAtlas.Text.CaseMapping

namespace CobolAtlas

set_option autoImplicit false

/-- Directories whose content is never source: those of version control, environments and build output. -/
def skippedDirectories : List Text :=
  [".git", ".svn", "target", "node_modules", ".venv", "venv", "dist", "build", "cobol_structures"].map
    String.toList

/-- Has the file name one of the extensions? -/
def Path.hasExtension (extensions : List Text) (p : Path) : Bool :=
  match p.extension with
  | none => false
  | some found => extensions.any (Text.sameIgnoringCase · found)

/-- Is a directory between the root and the path a skipped one? -/
def Path.inSkipped (p root : Path) : Bool :=
  match ((p.relativeTo? root).getD p).parent with
  | none => false
  | some directories => directories.components.any fun c => match c with
      | .name n => skippedDirectories.contains n
      | _ => false

/-- What a walk comes to. -/
inductive Sighting where
  /-- An entry, of unknown kind where it is a stream. -/
  | entry (path : Path) (kind : Option EntryKind)
  /-- An error on the way. -/
  | unreadable
deriving DecidableEq

/-- The source file that is sighted, if it is one. -/
def Sighting.source? (root : Path) (extensions : List Text) : Sighting → Option Path
  | .unreadable => none
  | .entry _ none => none
  | .entry path (some kind) =>
      if path.same root || kind != .file || path.inSkipped root then none
      else if path.hasExtension extensions then some path
      else none

/-- The path in its place of an ascending list. -/
def Path.insertAscending (p : Path) : List Path → List Path
  | [] => [p]
  | q :: qs => if q.precedes p then q :: insertAscending p qs else p :: q :: qs

/-- The paths in ascending order. -/
def Path.ascending (ps : List Path) : List Path := ps.foldr insertAscending []

/-- The source files of a walk from a root, in order. -/
def sourcesOf (root : Path) (extensions : List Text) (walk : List Sighting) : List Path :=
  Path.ascending (walk.filterMap (·.source? root extensions))

/-- A walk for programs to run with: the root and what is listed below it.  Of the files with rules it reads those that
stand in the tree and in its repositories, not those of a user. -/
def FileSystem.walk (fs : FileSystem) (root : Path) : List Sighting :=
  (match fs.find? root with
    | none => .unreadable
    | some e => .entry root (some e.kind)) :: (fs.listing root).map fun e => .entry e.path (some e.kind)

/-- The source files below a root. -/
def FileSystem.sources (fs : FileSystem) (root : Path) (extensions : List Text) : List Path :=
  sourcesOf root extensions (fs.walk root)

end CobolAtlas
