/-
# CobolAtlas.Repository.Settings -- what a run over a repository is told

The settings name the root, the places of the results, the extensions of source files, the reader to use and
where its grammar is.  `Settings.root?` checks the root and gives its path without links.
-/
import CobolAtlas.Failure
import CobolAtlas.FileSystem.Basic
import CobolAtlas.Grammar.Library

namespace CobolAtlas

set_option autoImplicit false

/-- Which reader of COBOL a run uses. -/
inductive ReaderChoice where
  /-- That of syntax trees where a grammar can be opened, else that of lines. -/
  | automatic
  | syntaxTree
  | lines
deriving DecidableEq

/-- The settings of a run. -/
structure Settings where
  repository : Path
  /-- The directory for one structure file per source file. -/
  output : Path
  /-- The file for the call graph. -/
  callGraph : Path
  extensions : List Text
  reader : ReaderChoice
  grammar : Grammar.Settings
  profile : Profile

namespace Settings

/-- The settings where nothing is said. -/
def standard : Settings where
  repository := ⟨".".toList⟩
  output := ⟨"cobol_structures".toList⟩
  callGraph := ⟨"filecall_graph.json".toList⟩
  extensions := ["cbl".toList]
  reader := .automatic
  grammar := ⟨none, none, Grammar.standardDirectory, Grammar.standardSymbol⟩
  profile := Profile.standard

/-- The root without links, if it is a directory and there are extensions to look for. -/
def root? (s : Settings) (fs : FileSystem) : Except Failure Path :=
  if !fs.has s.repository then .error (.rootMissing s.repository)
  else if !fs.isDirectory s.repository then .error (.rootNotDirectory s.repository)
  else if s.extensions.isEmpty then .error .noExtensions
  else match fs.canonical? s.repository with
    | some root => .ok root
    | none => .error (.rootUnresolved s.repository)

end Settings

/-! ## Profiles in files -/

/-- The profile in a file of JSON. -/
def Profile.load (fs : FileSystem) (file : Path) : Except Failure Profile :=
  match (fs.read? file).bind Utf8.decode? with
  | none => .error (.profileUnreadable file)
  | some text => match (Json.parse? text).bind Profile.ofJson? with
    | none => .error (.profileMalformed file)
    | some profile => .ok profile

end CobolAtlas
