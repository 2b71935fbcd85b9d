/-
# CobolAtlas.Repository.Reader -- the reader that a run uses

A `Reader` makes a program of the text of a file.  `Reader.choose` takes the one that the settings ask for:
the reader of syntax trees needs a grammar, and where the choice is automatic any failure on the way to one
leads to the reader of lines.
-/
import CobolAtlas.Repository.Settings
import CobolAtlas.Source.Scan

namespace CobolAtlas

set_option autoImplicit false

/-- A way to make programs of files. -/
structure Reader where
  name : Text
  read : Path → Text → Program

namespace Reader

/-- The reader of lines. -/
def lines : Reader := ⟨Source.backendName, Program.ofSource⟩

/-- The name under which programs of syntax trees are recorded. -/
def treeName : Text := "tree-sitter".toList

/-- The reader of syntax trees, which `parse` makes of texts. -/
def trees (profile : Profile) (parse : Text → Node) : Reader :=
  ⟨treeName, fun path text => Program.ofTree profile path treeName (parse text)⟩

/-- The reader of syntax trees, if there is a grammar. -/
def ofGrammar (host : Host) (s : Settings) : Run (Option Reader) := do
  match ← Grammar.ensure host s.grammar with
  | none => pure none
  | some library => some <$> trees s.profile <$> Grammar.load host library s.grammar.symbol

/-- The reader that the settings ask for. -/
def choose (host : Host) (s : Settings) : Run Reader :=
  match s.reader with
  | .lines => pure lines
  | .syntaxTree => do
      Run.require (← ofGrammar host s) (.noGrammar s.grammar.buildDirectory)
  | .automatic => do
      let found ← tryCatch (ofGrammar host s) fun _ => pure none
      pure (found.getD lines)

/-- The program of a file; what is no text in its path or its content is replaced. -/
def programOf (r : Reader) (fs : FileSystem) (file : Path) : Except Failure Program :=
  match fs.read? file with
  | none => .error (.unreadable file)
  | some content => .ok (r.read file.shown (Utf8.decodeLossy content))

/-- The program of a file; one without content if the file cannot be read. -/
def readOrEmpty (r : Reader) (fs : FileSystem) (file : Path) : Program :=
  match r.programOf fs file with
  | .ok p => p
  | .error _ => Program.ofEvents file.shown r.name []

end Reader

end CobolAtlas
