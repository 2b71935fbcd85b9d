/-
# CobolAtlas.CommandLine.Answer -- what a command prints and does

`Answer.toArguments` carries a request out on a file system.  A command that is misused ends with code 2 and
changes nothing; one that fails ends with code 1 and its failure in words, and what it wrote before stays.
-/
import CobolAtlas.CommandLine.Request
import CobolAtlas.Outline.Wire
import CobolAtlas.Repository.Output

namespace CobolAtlas.CommandLine

set_option autoImplicit false

/-- How a command ends. -/
structure Answer where
  code : Nat
  output : Text
  complaint : Text
  files : FileSystem

namespace Answer

/-! ## Texts -/

/-- The name and version of the program. -/
def versionLine : Text := "cobol-graph 0.1.0\n".toList

/-- How the program is used. -/
def usage : Text :=
  ("cobol-graph parse [--root PATH] [--ext EXT,...] [--out-dir DIR] [--callgraph FILE] [READER]\n" ++
    "cobol-graph file PATH [READER]\n" ++
    "cobol-graph outline [--root PATH] [--ext EXT,...] [READER]\n" ++
    "cobol-graph build-grammar --src DIR [--out FILE] [--symbol NAME]\n" ++
    "cobol-graph --version\n" ++
    "READER: [--backend auto|tree-sitter|heuristic] [--grammar FILE] [--grammar-src DIR]\n" ++
    "        [--grammar-dir DIR] [--grammar-symbol NAME] [--node-kinds FILE]\n").toList

/-- The lines that sum a run up. -/
def summary (r : Report) : Text :=
  "✔ Parsed ".toList ++ Text.ofNat r.programs ++ " COBOL program(s) with the ".toList ++ r.reader ++
    " backend.\n".toList ++
  "  • Structures  → ".toList ++ r.output.shown.text ++
    "/<file>.structure.json (mirrors repo layout)\n".toList ++
  "  • Call-graph  → ".toList ++ r.callGraph.shown.text ++ " (".toList ++ Text.ofNat r.calls.edges ++
    " edge(s), ".toList ++ Text.ofNat r.calls.resolved ++ " resolved)\n".toList ++
  (if r.calls.unresolvedTargets.isEmpty then []
   else "  • External    → ".toList ++ Text.joinWith ", ".toList r.calls.unresolvedTargets ++ ['\n'])

/-- A value over lines, the last one ended. -/
def printed (v : Json) : Text := Json.pretty v ++ ['\n']

/-! ## Carrying out -/

/-- The settings with the profile of a file, if one is named. -/
def withProfile (s : Settings) (profile : Option Path) : Run Settings := do
  match profile with
  | none => pure s
  | some file => pure { s with profile := ← liftExcept (Profile.load (← Run.files) file) }

/-- Carries a request out; the result is what is printed. -/
def carryOut (host : Host) : Request → Run Text
  | .write s profile => do
      let s ← withProfile s profile
      pure (summary (← writeRepository host s))
  | .print file s profile => do
      let s ← withProfile s profile
      let reader ← Reader.choose host s
      let p ← liftExcept (reader.programOf (← Run.files) file)
      pure (printed p.toJson)
  | .outline s profile => do
      let s ← withProfile s profile
      pure (printed (← Survey.take host s).outline.toJson)
  | .buildGrammar checkout out symbol => do
      let built ← Grammar.build host checkout out
      let _ ← Grammar.load host built symbol
      pure ("✔ Grammar library → ".toList ++ built.shown.text ++ ['\n'])
  | .version => pure versionLine

/-- The answer to the arguments of the program. -/
def toArguments (host : Host) (arguments : List Text) (fs : FileSystem) : Answer :=
  match Request.ofArguments host.environment? arguments with
  | .error .help => ⟨0, usage, [], fs⟩
  | .error .misuse => ⟨2, [], usage, fs⟩
  | .ok request =>
      match (carryOut host request).run.run fs with
      | (.ok output, after) => ⟨0, output, [], after⟩
      | (.error failure, after) => ⟨1, [], "Error: ".toList ++ failure.message ++ ['\n'], after⟩

end Answer

end CobolAtlas.CommandLine
