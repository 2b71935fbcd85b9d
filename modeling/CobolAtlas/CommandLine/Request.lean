/-
# CobolAtlas.CommandLine.Request -- what a command asks for

A command line is a subcommand with its arguments; `Request.ofArguments` gives each value its meaning and
each option that is absent its default.  Where the library and the checkout of the grammar are not named by
options, variables of the environment may name them.  An empty path is no path.
-/
import CobolAtlas.CommandLine.Arguments
import CobolAtlas.Repository.Settings

namespace CobolAtlas.CommandLine

set_option autoImplicit false

/-- What a command asks for.  Settings are accompanied by the file of a node-kind profile, if one is named. -/
inductive Request where
  /-- Write the structures and the call graph of a repository. -/
  | write (settings : Settings) (profile : Option Path)
  /-- Print the structure of one file. -/
  | print (file : Path) (settings : Settings) (profile : Option Path)
  /-- Print the outline of a repository. -/
  | outline (settings : Settings) (profile : Option Path)
  /-- Build the library of a grammar. -/
  | buildGrammar (checkout out : Path) (symbol : Text)
  | version

namespace Request

/-! ## Values -/

/-- A path that is not empty. -/
def path (text : Text) : Except Refusal Path := if text = [] then .error .misuse else .ok ⟨text⟩

/-- The path that an option gives. -/
def pathOf? (a : Arguments) (name : String) : Option Path := (a.value? name).map Path.mk

/-- The path that an option gives, or a default. -/
def pathOr (a : Arguments) (name : String) (default : Path) : Path := (pathOf? a name).getD default

/-- The readers by their names. -/
def readerChoices : List (Text × ReaderChoice) :=
  [("auto".toList, .automatic), ("tree-sitter".toList, .syntaxTree), ("heuristic".toList, .lines)]

/-! ## Groups of options -/

/-- An option that is given once. -/
def single (name : String) (kind : ValueKind) : KnownOption := ⟨name.toList, kind, false⟩

/-- The options that choose the reader. -/
def readerOptions : List KnownOption :=
  [single "backend" (.oneOf (readerChoices.map (·.1))), single "grammar" .path, single "grammar-src" .path,
    single "grammar-dir" .path, single "grammar-symbol" .word, single "node-kinds" .path]

/-- The path that an option gives, or else a variable of the environment. -/
def pathFrom? (environment? : Text → Option Text) (a : Arguments) (name variableName : String) :
    Except Refusal (Option Path) :=
  match pathOf? a name with
  | some given => .ok (some given)
  | none => (environment? variableName.toList).mapM path

/-- The settings with the chosen reader, and the file of a profile. -/
def withReader (environment? : Text → Option Text) (a : Arguments) (s : Settings) :
    Except Refusal (Settings × Option Path) := do
  let library ← pathFrom? environment? a "grammar" "COBOL_GRAMMAR_PATH"
  let source ← pathFrom? environment? a "grammar-src" "COBOL_GRAMMAR_SRC"
  pure ({ s with
    reader := ((a.value? "backend").bind fun name => readerChoices.lookup name).getD s.reader
    grammar :=
      ⟨library, source, pathOr a "grammar-dir" s.grammar.buildDirectory,
        (a.value? "grammar-symbol").getD s.grammar.symbol⟩ }, pathOf? a "node-kinds")

/-- The options that choose the files of a repository. -/
def repositoryOptions : List KnownOption :=
  single "root" .path :: ⟨"ext".toList, .word, true⟩ :: readerOptions

/-- The settings for a repository. -/
def repository (environment? : Text → Option Text) (a : Arguments) :
    Except Refusal (Settings × Option Path) :=
  let extensions := a.values "ext"
  withReader environment? a { Settings.standard with
    repository := pathOr a "root" Settings.standard.repository
    extensions := if extensions.isEmpty then Settings.standard.extensions else extensions }

/-! ## Subcommands -/

def writeOf (environment? : Text → Option Text) (arguments : List Text) : Except Refusal Request := do
  let placeOptions := [single "out-dir" .path, single "callgraph" .path]
  let a ← Arguments.read ⟨placeOptions ++ repositoryOptions, 0⟩ arguments
  let (s, profile) ← repository environment? a
  pure (.write { s with
    output := pathOr a "out-dir" s.output
    callGraph := pathOr a "callgraph" s.callGraph } profile)

def printOf (environment? : Text → Option Text) (arguments : List Text) : Except Refusal Request := do
  let a ← Arguments.read ⟨readerOptions, 1⟩ arguments
  let file ← Refusal.require a.operands.head?
  let (s, profile) ← withReader environment? a Settings.standard
  pure (.print ⟨file⟩ s profile)

def outlineOf (environment? : Text → Option Text) (arguments : List Text) : Except Refusal Request := do
  let a ← Arguments.read ⟨repositoryOptions, 0⟩ arguments
  let (s, profile) ← repository environment? a
  pure (.outline s profile)

def buildGrammarOf (arguments : List Text) : Except Refusal Request := do
  let options := [single "src" .path, single "out" .path, single "symbol" .word]
  let a ← Arguments.read ⟨options, 0⟩ arguments
  let checkout ← Refusal.require (pathOf? a "src")
  pure (.buildGrammar checkout (pathOr a "out" (Grammar.standardDirectory.join ⟨Grammar.builtName⟩))
    ((a.value? "symbol").getD Grammar.standardSymbol))

/-- Help is had on the program or on one subcommand, `help` among them. -/
def helpOf : List Text → Except Refusal Request
  | [] => .error .help
  | [name] =>
      if (["parse", "file", "outline", "build-grammar", "help"].map String.toList).contains name then
        .error .help
      else .error .misuse
  | _ => .error .misuse

/-- What the arguments of the program ask for; `environment?` gives the variables of the environment. -/
def ofArguments (environment? : Text → Option Text) : List Text → Except Refusal Request
  | [] => .error .misuse
  | first :: rest =>
      if first = "parse".toList then writeOf environment? rest
      else if first = "file".toList then printOf environment? rest
      else if first = "outline".toList then outlineOf environment? rest
      else if first = "build-grammar".toList then buildGrammarOf rest
      else if first = "help".toList then helpOf rest
      else if first = "--version".toList ∨ "-V".toList.isPrefixOf first then .ok .version
      else if first = "--help".toList ∨ "-h".toList.isPrefixOf first then .error .help
      else .error .misuse

end Request

end CobolAtlas.CommandLine
