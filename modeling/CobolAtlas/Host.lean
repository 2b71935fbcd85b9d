/-
# CobolAtlas.Host -- what surrounds a run

A run reads and changes a `FileSystem` and can stop with a `Failure`; what it changed before stays changed.
Beside the files it meets a `Host`: the environment's variables, the compilers that can be started, the
grammar libraries that can be opened, and the walk that lists a repository.  A compiler is a function of its
invocation and the files; an opened grammar is a function from the text of a file to its syntax tree.  Which
entries a walk leaves out is the walk's own affair; `FileSystem.walk` is the one that a program runs with.
-/
import CobolAtlas.Failure
import CobolAtlas.FileSystem.Write
import CobolAtlas.Repository.Sources
import CobolAtlas.Syntax.Tree

namespace CobolAtlas

set_option autoImplicit false

/-- A command with its arguments. -/
structure Invocation where
  command : Text
  arguments : List Text
deriving DecidableEq

/-- Can the command be handed to the system?  A word that holds a NUL can not. -/
def Invocation.isPassable (c : Invocation) : Bool :=
  (c.command :: c.arguments).all fun word => !(Path.bytesOf word).contains 0

/-- What a process leaves behind. -/
structure Completion where
  status : ExitStatus
  /-- What it wrote to its error stream. -/
  complaints : Bytes
  files : FileSystem

/-- The surroundings of a run. -/
structure Host where
  environment? : Text → Option Text
  /-- Runs a command whose words hold no NUL; nothing if it cannot be started. -/
  execute? : Invocation → FileSystem → Option Completion
  /-- Opens a grammar library by its path and the symbol it exports. -/
  openGrammar? : FileSystem → Path → Text → Option (Text → Node)
  /-- What a walk from a root comes to. -/
  walk : FileSystem → Path → List Sighting := FileSystem.walk

/-- Starts a command. -/
def Host.start? (host : Host) (command : Invocation) (fs : FileSystem) : Option Completion :=
  if command.isPassable then host.execute? command fs else none

/-- A computation on files that can fail. -/
abbrev Run (α : Type) : Type := ExceptT Failure (StateM FileSystem) α

namespace Run

/-- The files as they are. -/
def files : Run FileSystem := get

/-- Stops. -/
def fail {α : Type} (f : Failure) : Run α := throw f

/-- The value, or else a failure. -/
def require {α : Type} (o : Option α) (f : Failure) : Run α :=
  match o with
  | some a => pure a
  | none => throw f

/-- Makes a directory and those above it. -/
def makeDirectories (p : Path) (f : Failure) : Run Unit := do
  let (there, after) := (← files).makeDirectories p
  set after
  unless there do fail f

/-- Writes a file. -/
def write (p : Path) (content : Bytes) : Run Unit := do
  set (← require ((← files).write? p content) (.notWritten p))

/-- Makes the directory that a file is to stand in. -/
def makeParent (p : Path) : Run Unit :=
  match p.parent with
  | none => pure ()
  | some directory => makeDirectories directory (.directoryNotCreated directory)

end Run

end CobolAtlas
