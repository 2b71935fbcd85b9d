/-
# CobolAtlas.Repository.Survey -- all programs of a repository and their calls

A `Survey` is what is known of a repository before anything is written: its programs in the order of their
files, the index of their names and the call graph that the index resolves.
-/
import CobolAtlas.Calls.Graph
import CobolAtlas.Outline.Repository
import CobolAtlas.Repository.Reader

namespace CobolAtlas

set_option autoImplicit false

/-- What a repository holds. -/
structure Survey where
  root : Path
  /-- The name of the reader that was used. -/
  reader : Text
  programs : List Program
  index : ProgramIndex
  graph : CallGraph

namespace Survey

/-- The survey of programs below a root. -/
def ofPrograms (root : Path) (reader : Text) (programs : List Program) : Survey where
  root := root
  reader := reader
  programs := programs
  index := ProgramIndex.ofPrograms programs
  graph := CallGraph.ofPrograms programs (ProgramIndex.ofPrograms programs)

/-- Surveys the repository of the settings. -/
def take (host : Host) (s : Settings) : Run Survey := do
  let root ← liftExcept (s.root? (← Run.files))
  let reader ← Reader.choose host s
  let fs ← Run.files
  let sources := sourcesOf root s.extensions (host.walk fs root)
  pure (ofPrograms root reader.name (sources.map (reader.readOrEmpty fs)))

/-- The outline of the repository.  The path of the root is compared as it is, and shown as text. -/
def outline (s : Survey) : Outline :=
  .node (Outline.emptyRoot s.root.shown).data (Outline.ofPrograms s.root s.programs).children

end Survey

end CobolAtlas
