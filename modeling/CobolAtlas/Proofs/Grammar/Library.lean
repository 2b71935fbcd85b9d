/-
# CobolAtlas.Proofs.Grammar.Library -- what stands where a library is found or built

A library that is located is a file.  A build gives the path it was told and does one of two things
(`build_gives_iff`): it leaves the files alone where something stands at that path that no source is newer than, or it
starts a compiler, and this one ends well (`Compiled`).  In neither case does it look for a file in the end.

`ensure` builds only where nothing was located, so what then counts as up to date is no file, and a compiler that ends
well may have left none.  These are the two ways to a path without a file (`LeavesNoFile`), and there are no others
(`ensure_isFile_iff`).  A library is ensured once more without a compiler (`Settled`) exactly if it would be located, or
if what stands there still counts as up to date.
-/
import CobolAtlas.Grammar.Library
import CobolAtlas.Proofs.Host

namespace CobolAtlas.Grammar

set_option autoImplicit false

open Run

variable {host : Host} {s : Settings} {fs fs' : FileSystem} {checkout out p : Path} {r : Option Path}

/-! ## Finding -/

/-- Where a library is built. -/
def Settings.builtPath (s : Settings) : Path := s.buildDirectory.join ⟨builtName⟩

theorem isFile_of_locate? (found : locate? s fs = some p) : fs.isFile p = true := List.find?_some found

theorem candidates_eq (s : Settings) :
    candidates s = s.library.toList ++ s.builtPath :: [s.buildDirectory.join ⟨"cobol.so".toList⟩] := rfl

/-- A library that the settings name comes first. -/
theorem locate?_of_library {library : Path} (named : s.library = some library) (isFile : fs.isFile library = true) :
    locate? s fs = some library := by
  rw [locate?, candidates_eq, named]
  exact List.find?_cons_of_pos isFile

/-- The path of builds is located where a file stands there, and no file where the settings name another library. -/
theorem locate?_eq_builtPath_iff : locate? s fs = some s.builtPath ↔
    fs.isFile s.builtPath = true ∧
      ∀ library, s.library = some library → fs.isFile library = true → library = s.builtPath := by
  constructor
  · intro found
    refine ⟨isFile_of_locate? found, fun library named isFile => ?_⟩
    exact Option.some.inj ((locate?_of_library named isFile).symm.trans found)
  · rintro ⟨isFile, first⟩
    cases named : s.library with
    | none =>
      rw [locate?, candidates_eq, named]
      exact List.find?_cons_of_pos isFile
    | some library =>
      cases there : fs.isFile library with
      | true => rw [locate?_of_library named there, first library named there]
      | false =>
        rw [locate?, candidates_eq, named]
        refine (List.find?_cons_of_neg ?_).trans (List.find?_cons_of_pos isFile)
        rw [there]
        exact Bool.false_ne_true

theorem isFile_builtPath_of_none (missing : locate? s fs = none) : fs.isFile s.builtPath = false := by
  have noFile := List.find?_eq_none.1 missing s.builtPath (by rw [candidates_eq]; simp)
  exact Bool.eq_false_iff.2 noFile

/-! ## Building -/

/-- A compiler was started on the sources, in a directory that was made if need be, and ended well. -/
def Compiled (host : Host) (checkout out : Path) (sources : List Path) (plus : Bool) (fs fs' : FileSystem) : Prop :=
  ∃ made done, (makeParent out).Gives fs () made ∧
    host.start? (invocation (compilerOf host plus) checkout sources out) made = some done ∧
      done.status.isSuccess = true ∧ done.files = fs'

theorem execute_gives_iff {command : Invocation} : (execute host command).Gives fs () fs' ↔
    ∃ done, host.start? command fs = some done ∧ done.status.isSuccess = true ∧ done.files = fs' := by
  simp only [execute, gives_bind, gives_files, gives_require, gives_set]
  constructor
  · rintro ⟨_, _, ⟨rfl, rfl⟩, done, _, ⟨started, rfl⟩, _, _, rfl, ends⟩
    cases success : done.status.isSuccess with
    | true =>
      rw [success] at ends
      exact ⟨done, started, success, (gives_pure.1 ends).2⟩
    | false =>
      rw [success] at ends
      exact absurd ends not_gives_fail
  · rintro ⟨done, started, success, rfl⟩
    refine ⟨_, _, ⟨rfl, rfl⟩, done, _, ⟨started, rfl⟩, ⟨⟩, _, rfl, ?_⟩
    rw [success]
    exact gives_pure.2 ⟨rfl, rfl⟩

/-- A build gives the path it was told, and has left the files alone or run a compiler. -/
theorem build_gives_iff : (build host checkout out).Gives fs p fs' ↔
    p = out ∧ ∃ sources plus, sourcesOf? fs checkout = some (sources, plus) ∧
      (isUpToDate fs out sources = true ∧ fs' = fs ∨
        isUpToDate fs out sources = false ∧ Compiled host checkout out sources plus fs fs') := by
  simp only [build, gives_bind, gives_files, gives_require]
  constructor
  · rintro ⟨_, _, ⟨rfl, rfl⟩, ⟨sources, plus⟩, _, ⟨checks, rfl⟩, _, _, ⟨rfl, rfl⟩, ran⟩
    dsimp only at ran
    cases upToDate : isUpToDate fs out sources with
    | true =>
      rw [if_pos upToDate] at ran
      obtain ⟨rfl, rfl⟩ := gives_pure.1 ran
      exact ⟨rfl, sources, plus, checks, .inl ⟨upToDate, rfl⟩⟩
    | false =>
      rw [if_neg (Bool.eq_false_iff.1 upToDate), gives_bind] at ran
      obtain ⟨_, made, makes, ran⟩ := ran
      obtain ⟨_, _, executed, ran⟩ := gives_bind.1 ran
      obtain ⟨rfl, rfl⟩ := gives_pure.1 ran
      obtain ⟨done, started, success, files⟩ := execute_gives_iff.1 executed
      exact ⟨rfl, sources, plus, checks, .inr ⟨upToDate, made, done, makes, started, success, files⟩⟩
  · rintro ⟨rfl, sources, plus, checks, done⟩
    refine ⟨_, _, ⟨rfl, rfl⟩, (sources, plus), _, ⟨checks, rfl⟩, _, _, ⟨rfl, rfl⟩, ?_⟩
    dsimp only
    rcases done with ⟨upToDate, rfl⟩ | ⟨stale, made, done, makes, started, success, files⟩
    · rw [if_pos upToDate]
      exact gives_pure.2 ⟨rfl, rfl⟩
    · rw [if_neg (Bool.eq_false_iff.1 stale)]
      have executed := execute_gives_iff.2 ⟨done, started, success, files⟩
      exact gives_bind.2 ⟨⟨⟩, made, makes, gives_bind.2 ⟨⟨⟩, fs', executed, gives_pure.2 ⟨rfl, rfl⟩⟩⟩

/-- What is ensured was located, or else it was built. -/
theorem ensure_gives_some_iff : (ensure host s).Gives fs (some p) fs' ↔
    locate? s fs = some p ∧ fs' = fs ∨
      locate? s fs = none ∧ ∃ checkout, s.source = some checkout ∧
        (build host checkout s.builtPath).Gives fs p fs' := by
  rw [ensure, gives_bind]
  constructor
  · rintro ⟨_, _, files, ran⟩
    obtain ⟨rfl, rfl⟩ := gives_files.1 files
    cases found : locate? s fs with
    | some q =>
      rw [found] at ran
      obtain ⟨same, rfl⟩ := gives_pure.1 ran
      exact .inl ⟨same, rfl⟩
    | none =>
      rw [found] at ran
      cases source : s.source with
      | none =>
        rw [source] at ran
        cases (gives_pure.1 ran).1
      | some checkout =>
        rw [source] at ran
        obtain ⟨q, built, same⟩ := gives_map.1 ran
        obtain rfl := Option.some.inj same
        exact .inr ⟨rfl, checkout, rfl, built⟩
  · intro outcome
    refine ⟨fs, fs, gives_files.2 ⟨rfl, rfl⟩, ?_⟩
    rcases outcome with ⟨found, rfl⟩ | ⟨missing, checkout, source, built⟩
    · rw [found]
      exact gives_pure.2 ⟨rfl, rfl⟩
    · rw [missing, source]
      exact gives_map.2 ⟨p, built, rfl⟩

/-! ## Without a file -/

/-- The ways in which a path is given and no file is there. -/
inductive LeavesNoFile (host : Host) (s : Settings) (fs fs' : FileSystem) : Prop where
  /-- Something else stands where the library is to be built, and no source is newer. -/
  | other {checkout : Path} {sources : List Path} {plus : Bool} (missing : locate? s fs = none)
      (source : s.source = some checkout) (checks : sourcesOf? fs checkout = some (sources, plus))
      (upToDate : isUpToDate fs s.builtPath sources = true)
  /-- The compiler ended well and made no file there. -/
  | silent {checkout : Path} {sources : List Path} {plus : Bool} (missing : locate? s fs = none)
      (source : s.source = some checkout) (checks : sourcesOf? fs checkout = some (sources, plus))
      (stale : isUpToDate fs s.builtPath sources = false)
      (compiled : Compiled host checkout s.builtPath sources plus fs fs')
      (noFile : fs'.isFile s.builtPath = false)

/-- The library is ensured again, whatever compilers there are, and no file changes. -/
def Settled (s : Settings) (fs : FileSystem) (p : Path) : Prop := ∀ host, (ensure host s).Gives fs (some p) fs

theorem not_compiled_bare {sources : List Path} {plus : Bool} :
    ¬Compiled .bare checkout out sources plus fs fs' := by
  rintro ⟨made, done, -, started, -, -⟩
  rw [Host.start?] at started
  split at started <;> cases started

/-- Without a compiler a library is located, or what stands where it is to be built counts as up to date. -/
theorem settled_iff : Settled s fs p ↔
    locate? s fs = some p ∨
      locate? s fs = none ∧ p = s.builtPath ∧ ∃ checkout sources plus, s.source = some checkout ∧
        sourcesOf? fs checkout = some (sources, plus) ∧ isUpToDate fs p sources = true := by
  constructor
  · intro settled
    rcases ensure_gives_some_iff.1 (settled .bare) with ⟨found, -⟩ | ⟨missing, checkout, source, built⟩
    · exact .inl found
    · obtain ⟨rfl, sources, plus, checks, ⟨upToDate, -⟩ | ⟨-, compiled⟩⟩ := build_gives_iff.1 built
      · exact .inr ⟨missing, rfl, checkout, sources, plus, source, checks, upToDate⟩
      · exact absurd compiled not_compiled_bare
  · rintro (found | ⟨missing, rfl, checkout, sources, plus, source, checks, upToDate⟩) host
    · exact ensure_gives_some_iff.2 (.inl ⟨found, rfl⟩)
    · exact ensure_gives_some_iff.2 (.inr ⟨missing, checkout, source,
        build_gives_iff.2 ⟨rfl, sources, plus, checks, .inl ⟨upToDate, rfl⟩⟩⟩)

/-- A file that was ensured is located from then on, unless the settings name another library that is a file by now. -/
theorem locate?_of_ensured (ran : (ensure host s).Gives fs (some p) fs') : locate? s fs' = some p ↔
    fs'.isFile p = true ∧ ∀ library, s.library = some library → fs'.isFile library = true → library = p := by
  rcases ensure_gives_some_iff.1 ran with ⟨found, rfl⟩ | ⟨-, checkout, -, built⟩
  · refine iff_of_true found ⟨isFile_of_locate? found, fun library named isFile => ?_⟩
    exact Option.some.inj ((locate?_of_library named isFile).symm.trans found)
  · obtain ⟨rfl, -⟩ := build_gives_iff.1 built
    exact locate?_eq_builtPath_iff

/-- **A library that is ensured is a file, but for two cases**: something else stands where it is to be built and
counts as up to date, or the compiler ended well and made no file there.  What was ensured is ensured again without a
compiler exactly if it is a file, and so is no other library that the settings name, or if no library is located and
what stands there counts as up to date. -/
theorem ensure_isFile_iff (ran : (ensure host s).Gives fs (some p) fs') :
    (fs'.isFile p = true ↔ ¬LeavesNoFile host s fs fs') ∧
      (Settled s fs' p ↔
        (fs'.isFile p = true ∧ ∀ library, s.library = some library → fs'.isFile library = true → library = p) ∨
          (locate? s fs' = none ∧ ∃ checkout sources plus, s.source = some checkout ∧
            sourcesOf? fs' checkout = some (sources, plus) ∧ isUpToDate fs' p sources = true)) := by
  constructor
  · rcases ensure_gives_some_iff.1 ran with ⟨found, rfl⟩ | ⟨missing, checkout, source, built⟩
    · refine iff_of_true (isFile_of_locate? found) fun noFile => ?_
      cases noFile <;> simp_all
    · obtain ⟨rfl, sources, plus, checks, ⟨upToDate, rfl⟩ | ⟨stale, compiled⟩⟩ := build_gives_iff.1 built
      · -- a file would have been located
        refine iff_of_false (Bool.eq_false_iff.1 (isFile_builtPath_of_none missing)) fun none => ?_
        exact none (.other missing source checks upToDate)
      · cases isFile : fs'.isFile s.builtPath with
        | false =>
          refine iff_of_false Bool.false_ne_true fun none => ?_
          exact none (.silent missing source checks stale compiled isFile)
        | true =>
          refine iff_of_true rfl fun noFile => ?_
          cases noFile <;> simp_all
  · rw [settled_iff, locate?_of_ensured ran]
    refine or_congr_right (and_congr_right fun missing => and_iff_right_of_imp fun _ => ?_)
    rcases ensure_gives_some_iff.1 ran with ⟨found, rfl⟩ | ⟨-, checkout, -, built⟩
    · rw [missing] at found
      cases found
    · exact (build_gives_iff.1 built).1

/-- A checkout beside the build directory, where `built` may stand in place of a library.  Directories were modified at
`changed`. -/
def besideCheckout (changed : Nat) (built : List (Location × Entry)) : FileSystem where
  entries := [(["w".toList], .directory), (["w", "gram"].map String.toList, .directory),
    (["w", "gram", "src"].map String.toList, .directory),
    (["w", "gram", "src", "parser.c"].map String.toList, .file [] 2000 false)] ++ built
  current := ["w".toList]
  clock := ⟨3000, fun _ => changed⟩

/-- A library is to be built from the checkout. -/
def fromCheckout : Settings := ⟨none, some ⟨"gram".toList⟩, standardDirectory, standardSymbol⟩

/-- Surroundings in which any compiler writes to the path that it is told last. -/
def compiling : Host where
  environment? _ := none
  execute? command fs := (fs.write? ⟨command.arguments.getLast?.getD []⟩ [0x7f]).map fun fs => ⟨.exited 0, [], fs⟩
  openGrammar? _ _ _ := none

/-- Surroundings in which any compiler ends well and does nothing. -/
def silent : Host where
  environment? _ := none
  execute? _ fs := some ⟨.exited 0, [], fs⟩
  openGrammar? _ _ _ := none

/-- The files that are left when a library was ensured. -/
def leftBy (host : Host) (fs : FileSystem) : FileSystem := ((ensure host fromCheckout).run.run fs).2

theorem gives_leftBy (ran : ((ensure host fromCheckout).run.run fs).1 = .ok r) :
    (ensure host fromCheckout).Gives fs r (leftBy host fs) := Prod.ext ran rfl

theorem ensure_isFile_iff_compiling :
    let p : Path := ⟨"build/libtree-sitter-cobol.so".toList⟩
    let fs := besideCheckout 1000 []
    (ensure compiling fromCheckout).Gives fs (some p) (leftBy compiling fs) ∧
      (leftBy compiling fs).isFile p = true ∧ ¬LeavesNoFile compiling fromCheckout fs (leftBy compiling fs) ∧
        Settled fromCheckout (leftBy compiling fs) p := by
  intro p fs
  have ran : (ensure compiling fromCheckout).Gives fs (some p) (leftBy compiling fs) := gives_leftBy (by decide +kernel)
  have isFile : (leftBy compiling fs).isFile p = true := by decide +kernel
  obtain ⟨exact, settled⟩ := ensure_isFile_iff ran
  exact ⟨ran, isFile, exact.1 isFile, settled.2 (.inl ⟨isFile, nofun⟩)⟩

/-- A directory where the library is to be built. -/
def directoryBuilt : List (Location × Entry) :=
  [(["w", "build"].map String.toList, .directory),
    (["w", "build", "libtree-sitter-cobol.so"].map String.toList, .directory)]

/-- A directory that stands where the library is to be built, and that was modified after the sources, counts as up to
date; and a compiler that makes nothing leaves nothing there, so that the next time a compiler is started again. -/
theorem ensure_no_file :
    let p : Path := ⟨"build/libtree-sitter-cobol.so".toList⟩
    let taken := besideCheckout 2500 directoryBuilt
    let after := leftBy silent (besideCheckout 2500 [])
    (ensure .bare fromCheckout).Gives taken (some p) (leftBy .bare taken) ∧
      (leftBy .bare taken).isDirectory p = true ∧ (leftBy .bare taken).isFile p = false ∧
        (ensure silent fromCheckout).Gives (besideCheckout 2500 []) (some p) after ∧ after.has p = false ∧
          ¬Settled fromCheckout after p := by
  intro p taken after
  refine ⟨gives_leftBy (by decide +kernel), by decide +kernel, by decide +kernel, gives_leftBy (by decide +kernel),
    by decide +kernel, fun settled => ?_⟩
  have failed : ((ensure .bare fromCheckout).run.run after).1 = .error (.compilerMissing "cc".toList) := by
    decide +kernel
  rw [settled .bare] at failed
  cases failed

/-- A directory that is older than the sources does not: a compiler is asked for. -/
example : ((ensure .bare fromCheckout).run.run (besideCheckout 1000 directoryBuilt)).1 =
    .error (.compilerMissing "cc".toList) := by
  decide +kernel

end CobolAtlas.Grammar
