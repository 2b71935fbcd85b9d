/-
# CobolAtlas.Repository.Listing -- what lies below a root

`listing` names every entry below a root that no ignore file leaves out, each with its kind.  An entry in a
directory that is left out is not listed.  The root itself may be a link; a link below it is listed as a link
and nothing is listed through it.
-/
import CobolAtlas.Ignore.Scope

namespace CobolAtlas

set_option autoImplicit false

/-- What kind of thing an entry is. -/
inductive EntryKind where
  | file
  | directory
  | link
  /-- A pipe, a socket or a device. -/
  | other
deriving DecidableEq

/-- The kind of an entry. -/
def Entry.kind : Entry → EntryKind
  | .file .. => .file
  | .directory => .directory
  | .link _ => .link

/-- An entry by its path. -/
structure Listed where
  path : Path
  kind : EntryKind
deriving DecidableEq

namespace FileSystem

/-- The entries of a directory that its scope does not leave out. -/
def entriesIn (fs : FileSystem) (scope : Ignore.Scope) (d : Location) : List (Location × Entry) :=
  fs.entries.filter fun (l, e) =>
    l.length == d.length + 1 && d.isPrefixOf l && !scope.leavesOut l (e.kind == .directory)

/-- The entries below a directory, at most so many levels down. -/
def entriesBelow (fs : FileSystem) : Nat → Ignore.Scope → Location → List (Location × Entry)
  | 0, _, _ => []
  | levels + 1, scope, d =>
      (fs.entriesIn scope d).flatMap fun (l, e) =>
        (l, e) :: match e with
          | .directory => fs.entriesBelow levels (Ignore.Level.of fs l :: scope) l
          | _ => []

/-- The entries below a root. -/
def listing (fs : FileSystem) (root : Path) : List Listed :=
  match fs.resolve root with
  | .error _ => []
  | .ok top => (fs.entriesBelow fs.entries.length (.ofDirectory fs top) top).map fun (l, e) =>
      ⟨(l.drop top.length).foldl (fun p name => p.join ⟨name⟩) root, e.kind⟩

end FileSystem

end CobolAtlas
