/-
# CobolAtlas.Calls.Index -- the file of a program name

Program names are compared in lower case.  A name declared in a file counts before a name that is only a
file's stem, and among names of the same standing the first file counts; the empty name is in no index.
The programs are gone through once, with declared names and stems kept apart (`ProgramIndex.Filling`), and
the stems are put in last, where no declared name is.
-/
import CobolAtlas.Program.Basic

namespace CobolAtlas

set_option autoImplicit false

/-- Program names in lower case, each with its file and each once. -/
structure ProgramIndex where
  entries : List (Text × Text)

namespace ProgramIndex

/-- No names. -/
def empty : ProgramIndex := ⟨[]⟩

/-- The name of a program as it is compared. -/
def key (name : Text) : Text := Text.lower name

/-- A name gets a file unless it has one. -/
def insertNew (index : ProgramIndex) (name file : Text) : ProgramIndex :=
  if index.entries.any (·.1 == name) then index else ⟨index.entries ++ [(name, file)]⟩

/-- The names that are declared so far and the names that are stems so far. -/
structure Filling where
  declared : ProgramIndex
  stems : ProgramIndex

/-- The name of a program gets its file among the names of its standing, unless it is empty or has one. -/
def Filling.insert (f : Filling) (p : Program) : Filling :=
  let name := key p.id
  if name.isEmpty then f
  else if p.declaresId then { f with declared := f.declared.insertNew name p.file }
  else { f with stems := f.stems.insertNew name p.file }

/-- Each name of the second index gets its file in the first unless it has one there. -/
def merge (index other : ProgramIndex) : ProgramIndex :=
  other.entries.foldl (fun index entry => index.insertNew entry.1 entry.2) index

/-- Both indexes once all programs are gone through. -/
def fill (programs : List Program) : Filling := programs.foldl Filling.insert ⟨empty, empty⟩

/-- The index of programs. -/
def ofPrograms (programs : List Program) : ProgramIndex :=
  (fill programs).declared.merge (fill programs).stems

/-- The file of a program name. -/
def lookup (index : ProgramIndex) (name : Text) : Option Text := List.lookup (key name) index.entries

/-- How many names there are. -/
def size (index : ProgramIndex) : Nat := index.entries.length

end ProgramIndex

end CobolAtlas
