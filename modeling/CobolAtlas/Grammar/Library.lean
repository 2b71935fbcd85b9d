/-
# CobolAtlas.Grammar.Library -- the library of a grammar, found or built

A grammar is a shared library.  `locate?` finds it where the settings name one or in the build directory;
`build` compiles it from a checkout, unless what was built before is no older than its sources; `ensure`
finds it or else builds it.
-/
import CobolAtlas.Host

namespace CobolAtlas.Grammar

set_option autoImplicit false

/-- Where the grammar is. -/
structure Settings where
  /-- A library given by its path. -/
  library : Option Path
  /-- A checkout to build the library from. -/
  source : Option Path
  /-- Where libraries are built and looked for. -/
  buildDirectory : Path
  /-- What the library exports. -/
  symbol : Text
deriving DecidableEq

/-- The directory that libraries are built in. -/
def standardDirectory : Path := ⟨"build".toList⟩

/-- The symbol of the public grammar. -/
def standardSymbol : Text := "tree_sitter_cobol".toList

/-- The file name of a library that is built. -/
def builtName : Text := "libtree-sitter-cobol.so".toList

/-- The names that a library may have in the build directory. -/
def libraryNames : List Text := [builtName, "cobol.so".toList]

/-! ## Finding -/

/-- The paths at which a library may be, in the order of preference. -/
def candidates (s : Settings) : List Path :=
  s.library.toList ++ libraryNames.map fun name => s.buildDirectory.join ⟨name⟩

/-- The library, if it is there. -/
def locate? (s : Settings) (fs : FileSystem) : Option Path := (candidates s).find? fs.isFile

/-! ## Building -/

/-- The files of a checkout to compile, and whether one of them is C++. -/
def sourcesOf? (fs : FileSystem) (checkout : Path) : Option (List Path × Bool) :=
  let source (name : String) : Path := (checkout.join ⟨"src".toList⟩).join ⟨name.toList⟩
  let parser := source "parser.c"
  let scanner := source "scanner.c"
  let scannerPlus := source "scanner.cc"
  if !fs.isFile parser then none
  else if fs.isFile scanner then some ([parser, scanner], false)
  else if fs.isFile scannerPlus then some ([parser, scannerPlus], true)
  else some ([parser], false)

/-- Was `a` modified after `b`? -/
def isNewer (fs : FileSystem) (a b : Path) : Bool :=
  match fs.modified? a, fs.modified? b with
  | some m, some n => n < m
  | _, _ => false

/-- Is `out` there and no source newer? -/
def isUpToDate (fs : FileSystem) (out : Path) (sources : List Path) : Bool :=
  fs.has out && !sources.any fun source => isNewer fs source out

/-- The language of a source file, as the compiler names it. -/
def languageOf (source : Path) : Text :=
  if source.extension = some "cc".toList then "c++".toList else "c".toList

/-- The command that compiles the sources to a shared library. -/
def invocation (compiler : Text) (checkout : Path) (sources : List Path) (out : Path) : Invocation where
  command := compiler
  arguments :=
    ["-shared", "-fPIC", "-O2", "-w", "-I"].map String.toList ++ [(checkout.join ⟨"src".toList⟩).text] ++
      (sources.flatMap fun source => ["-x".toList, languageOf source, source.text]) ++
      ["-o".toList, out.text]

/-- The compiler for C or C++. -/
def compilerOf (host : Host) (plus : Bool) : Text :=
  if plus then (host.environment? "CXX".toList).getD "c++".toList
  else (host.environment? "CC".toList).getD "cc".toList

/-- Runs a command that has to end well. -/
def execute (host : Host) (command : Invocation) : Run Unit := do
  let done ← Run.require (host.start? command (← Run.files)) (.compilerMissing command.command)
  set done.files
  unless done.status.isSuccess do
    Run.fail (.buildFailed done.status (Utf8.decodeLossy done.complaints))

/-- Compiles a checkout to `out`, if need be. -/
def build (host : Host) (checkout out : Path) : Run Path := do
  let (sources, plus) ← Run.require (sourcesOf? (← Run.files) checkout) (.notCheckout checkout)
  unless isUpToDate (← Run.files) out sources do
    Run.makeParent out
    execute host (invocation (compilerOf host plus) checkout sources out)
  pure out

/-- The library, found or built; nothing if there is neither a library nor a checkout. -/
def ensure (host : Host) (s : Settings) : Run (Option Path) := do
  match locate? s (← Run.files), s.source with
  | some found, _ => pure (some found)
  | none, some checkout => some <$> build host checkout (s.buildDirectory.join ⟨builtName⟩)
  | none, none => pure none

/-- Opens a library. -/
def load (host : Host) (library : Path) (symbol : Text) : Run (Text → Node) := do
  Run.require (host.openGrammar? (← Run.files) library symbol) (.grammarUnusable library)

end CobolAtlas.Grammar
