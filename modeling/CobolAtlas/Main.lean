/-
# CobolAtlas.Main -- the program

The arguments are those of `CommandLine.Request`.  For a repository the names of its entries come on standard
input, one a line, those of directories with a separator at their end; of these and of the files that the
arguments name, what can be read is gathered into a `FileSystem`.  `CommandLine.Answer` does the work on it,
and what that changed is written back.  The program starts no compiler and opens no library.
-/
import CobolAtlas.CommandLine.Answer
import CobolAtlas.FileSystem.Snapshot

namespace CobolAtlas.CommandLine

set_option autoImplicit false

/-! ## Names of files -/

/-- The files that the choice of a reader may look at. -/
def readerFiles (s : Settings) (profile : Option Path) : List Path :=
  Grammar.candidates s.grammar ++ profile.toList

/-- The files that a request names. -/
def Request.files : Request → List Path
  | .write s profile => readerFiles s profile
  | .print file s profile => file :: readerFiles s profile
  | .outline s profile => readerFiles s profile
  | .buildGrammar checkout out _ =>
      out :: ["parser.c", "scanner.c", "scanner.cc"].map fun name =>
        (checkout.join ⟨"src".toList⟩).join ⟨name.toList⟩
  | .version => []

/-- Is the request about the entries of a repository? -/
def Request.needsListing : Request → Bool
  | .write .. => true
  | .outline .. => true
  | _ => false

/-! ## Input and output -/

/-- The lines of standard input. -/
partial def inputLines (input : IO.FS.Stream) : IO (List Text) := do
  let line ← input.getLine
  if line.isEmpty then pure []
  else pure (Text.lines line.toList ++ (← inputLines input))

/-- The file system with the file of a path, if it can be read. -/
def gatherFile (fs : FileSystem) (p : Path) : IO FileSystem := do
  try
    let content ← IO.FS.readBinFile (String.ofList p.text)
    pure (fs.place p (.file content.toList fs.clock.now false))
  catch _ => pure fs

/-- The file system with what stands under a listed name. -/
def gatherListed (fs : FileSystem) (name : Text) : IO FileSystem :=
  if name.getLast? = some '/' then pure (fs.place ⟨name⟩ .directory) else gatherFile fs ⟨name⟩

/-- The files that a request is about. -/
def gather (request : Request) : IO FileSystem := do
  let here := (Text.splitOn '/' (toString (← IO.currentDir)).toList).filter (· != [])
  let start : FileSystem := ⟨[], here, 0⟩
  let start := start.place (FileSystem.pathOf here) .directory
  let names ← if request.needsListing then inputLines (← IO.getStdin) else pure []
  (request.files).foldlM gatherFile (← names.foldlM gatherListed start)

/-- Puts an entry where it belongs. -/
def writeBack (change : Location × Entry) : IO Unit := do
  let path := String.ofList (FileSystem.pathOf change.1).text
  match change.2 with
  | .directory => IO.FS.createDirAll path
  | .file content .. => IO.FS.writeBinFile path (ByteArray.mk content.toArray)
  | .link _ => pure ()

/-- The variables of the environment that a run asks for. -/
def environment : IO (List (Text × Text)) :=
  ["CC", "CXX", "COBOL_GRAMMAR_PATH", "COBOL_GRAMMAR_SRC"].foldlM (fun known name => do
    match ← IO.getEnv name with
    | some value => pure ((name.toList, value.toList) :: known)
    | none => pure known) []

end CobolAtlas.CommandLine

open CobolAtlas CobolAtlas.CommandLine in
def main (arguments : List String) : IO UInt32 := do
  let settings ← environment
  let host : Host :=
    { environment? name := settings.lookup name, execute? _ _ := none, openGrammar? _ _ _ := none }
  let arguments := arguments.map String.toList
  let before ← match Request.ofArguments host.environment? arguments with
    | .ok request => gather request
    | .error _ => pure ⟨[], [], 0⟩
  let answer := Answer.toArguments host arguments before
  (before.changes answer.files).forM writeBack
  IO.print (String.ofList answer.output)
  IO.eprint (String.ofList answer.complaint)
  pure (UInt32.ofNat answer.code)
