/-
# CobolAtlas.Ignore.Scope -- which rules reach an entry

An entry is subject to the ignore files of all directories above it, the root of the file system included,
and the nearest file that says anything decides.  There are three kinds of files, each looked through before
the next:

* `.ignore`, in every directory above the entry;
* `.gitignore` and then the exclude file of a repository, in the directories from the entry up to the
  nearest repository; where no directory above the entry is a repository they do not count.

A repository whose `.git` is a file keeps its exclude file in the directory that the file leads to.

A `Scope` holds the rules of a directory and of those above it (`Scope.ofDirectory`), so that each file is
read once on the way down.
-/
import CobolAtlas.FileSystem.Basic
import CobolAtlas.Ignore.Rule

namespace CobolAtlas.Ignore

set_option autoImplicit false

/-! ## Files of rules -/

/-- The rules in a file; none if it cannot be read. -/
def rulesOf (fs : FileSystem) (file : Path) : List Rule := ((fs.read? file).map Rule.ofFile).getD []

/-- The first line of a file, if it is text. -/
def firstLine? (fs : FileSystem) (p : Path) : Option Text := do
  let content ← fs.read? p
  let line ← Utf8.decode? (content.takeWhile (· != 10))
  (Text.lines (if content.contains 10 then line ++ ['\n'] else line)).head?

/-- The directory of files that a `.git` file leads to. -/
def worktreeFiles? (fs : FileSystem) (line : Text) : Option Path := do
  let worktree : Path := ⟨← Text.after? "gitdir: ".toList line⟩
  let common : Path := ⟨← firstLine? fs (worktree.join ⟨"commondir".toList⟩)⟩
  some (if common.text.head? = some '.' then worktree.join common else common)

/-- The name of what a repository is kept in. -/
def gitName : Path := ⟨".git".toList⟩

/-- The rules of the exclude file of the repository that a directory is the top of. -/
def excludeRules (fs : FileSystem) (d : Location) : List Rule :=
  let here := fs.enter d
  if here.isFile gitName then
    match (firstLine? here gitName).bind (worktreeFiles? fs) with
    | some files => rulesOf fs (files.join ⟨"info/exclude".toList⟩)
    | none => []
  else rulesOf here (gitName.join ⟨"info/exclude".toList⟩)

/-! ## Scopes -/

/-- What the ignore files of one directory hold. -/
structure Level where
  directory : Location
  /-- Is the directory the top of a repository? -/
  isRepository : Bool
  ignore : List Rule
  gitIgnore : List Rule
  gitExclude : List Rule

/-- The level of a directory. -/
def Level.of (fs : FileSystem) (d : Location) : Level :=
  let here := fs.enter d
  { directory := d
    isRepository := here.has gitName || here.has ⟨".jj".toList⟩
    ignore := rulesOf here ⟨".ignore".toList⟩
    gitIgnore := rulesOf here ⟨".gitignore".toList⟩
    gitExclude := excludeRules fs d }

/-- The levels of a directory and of those above it, the nearest first. -/
abbrev Scope := List Level

namespace Scope

/-- The scope of what is in a directory. -/
def ofDirectory (fs : FileSystem) (d : Location) : Scope :=
  (List.range (d.length + 1)).reverse.map fun n => Level.of fs (d.take n)

/-- The levels up to the first repository; none if there is no repository. -/
def withinRepository (s : Scope) : Scope :=
  match s.find? (·.isRepository) with
  | some top => s.takeWhile (fun level => !level.isRepository) ++ [top]
  | none => []

/-- What the files of one kind say of an entry. -/
def verdictOf? (s : Scope) (rules : Level → List Rule) (l : Location) (isDirectory : Bool) :
    Option Verdict :=
  s.findSome? fun level =>
    Rule.verdict? (rules level) (Text.joinWith ['/'] (l.drop level.directory.length)) isDirectory

/-- What the ignore files say of an entry. -/
def verdict? (s : Scope) (l : Location) (isDirectory : Bool) : Option Verdict :=
  s.verdictOf? Level.ignore l isDirectory <|>
    s.withinRepository.verdictOf? Level.gitIgnore l isDirectory <|>
    s.withinRepository.verdictOf? Level.gitExclude l isDirectory

/-- Do the ignore files leave the entry out? -/
def leavesOut (s : Scope) (l : Location) (isDirectory : Bool) : Bool :=
  s.verdict? l isDirectory == some .leftOut

end Scope

end CobolAtlas.Ignore
