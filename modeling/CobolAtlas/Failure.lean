/-
# CobolAtlas.Failure -- why an operation on a repository fails

Each cause is a constructor that carries the paths it is about; `message` words it.
-/
import CobolAtlas.Path.Basic

namespace CobolAtlas

set_option autoImplicit false

/-- How a process ended. -/
inductive ExitStatus where
  | exited (code : Nat)
  | killed (signal : Nat) (coreDumped : Bool)
deriving DecidableEq

namespace ExitStatus

/-- Did the process end well? -/
def isSuccess (s : ExitStatus) : Bool := s == .exited 0

/-- The names of the signals from 1 on. -/
def signalNames : List Text :=
  ["SIGHUP", "SIGINT", "SIGQUIT", "SIGILL", "SIGTRAP", "SIGABRT", "SIGBUS", "SIGFPE", "SIGKILL", "SIGUSR1",
    "SIGSEGV", "SIGUSR2", "SIGPIPE", "SIGALRM", "SIGTERM", "SIGSTKFLT", "SIGCHLD", "SIGCONT", "SIGSTOP",
    "SIGTSTP", "SIGTTIN", "SIGTTOU", "SIGURG", "SIGXCPU", "SIGXFSZ", "SIGVTALRM", "SIGPROF", "SIGWINCH",
    "SIGIO", "SIGPWR", "SIGSYS"].map String.toList

/-- The name of a signal in parentheses; nothing for a signal without a name. -/
def signalName (signal : Nat) : Text :=
  match signal with
  | 0 => []
  | n + 1 => match signalNames[n]? with
    | some name => " (".toList ++ name ++ ")".toList
    | none => []

/-- The status in words. -/
def describe : ExitStatus → Text
  | exited code => "exit status: ".toList ++ Text.ofNat code
  | killed signal coreDumped =>
      "signal: ".toList ++ Text.ofNat signal ++ signalName signal ++
        if coreDumped then " (core dumped)".toList else []

end ExitStatus

/-- The causes of failure. -/
inductive Failure where
  | rootMissing (root : Path)
  | rootNotDirectory (root : Path)
  | noExtensions
  | rootUnresolved (root : Path)
  /-- A source file cannot be read. -/
  | unreadable (file : Path)
  | profileUnreadable (file : Path)
  | profileMalformed (file : Path)
  | noGrammar (directory : Path)
  | notCheckout (directory : Path)
  | compilerMissing (compiler : Text)
  | buildFailed (status : ExitStatus) (complaints : Text)
  | grammarUnusable (library : Path)
  /-- The directory of all structures cannot be made. -/
  | outputNotCreated (directory : Path)
  | directoryNotCreated (directory : Path)
  | notWritten (file : Path)
deriving DecidableEq

namespace Failure

/-- The cause in words, with paths as they are shown. -/
def message : Failure → Text
  | rootMissing root => "Repo root '".toList ++ root.shown.text ++ "' does not exist.".toList
  | rootNotDirectory root => "Repo root '".toList ++ root.shown.text ++ "' is not a directory.".toList
  | noExtensions => "No source extensions configured".toList
  | rootUnresolved root => "resolving ".toList ++ root.shown.text
  | unreadable file => "reading ".toList ++ file.shown.text
  | profileUnreadable file => "reading node-kind profile ".toList ++ file.shown.text
  | profileMalformed file => "parsing node-kind profile ".toList ++ file.shown.text
  | noGrammar directory =>
      "no COBOL grammar found in ".toList ++ directory.shown.text ++
        " (set --grammar or --grammar-src)".toList
  | notCheckout directory =>
      directory.shown.text ++ " is not a tree-sitter grammar checkout (missing src/parser.c)".toList
  | compilerMissing compiler => "running compiler `".toList ++ compiler ++ "`".toList
  | buildFailed status complaints =>
      "grammar build failed (".toList ++ status.describe ++ "):\n".toList ++ complaints
  | grammarUnusable library => "opening grammar library ".toList ++ library.shown.text
  | outputNotCreated directory => "creating output directory ".toList ++ directory.shown.text
  | directoryNotCreated directory => "creating ".toList ++ directory.shown.text
  | notWritten file => "writing ".toList ++ file.shown.text

end Failure

end CobolAtlas
