/-
# CobolAtlas.Proofs.Repository.Reader -- programs name the files that they are of

No event changes the file of an assembly, so every program that is made of events is of the file that it was made for.
Both readers make their programs of events: whichever a run uses names the files (`Reader.namesFile_of_choose`), and so
do the empty programs that stand for files that cannot be read (`Reader.NamesFile.readOrEmpty`).
-/
import CobolAtlas.Proofs.Host
import CobolAtlas.Proofs.Program.Agreement
import CobolAtlas.Repository.Reader

namespace CobolAtlas

set_option autoImplicit false

open Run

/-! ## Programs -/

namespace Assembly

theorem appendStatement_file (s : Statement) (a : Assembly) : (a.appendStatement s).file = a.file := by
  rw [appendStatement]
  split <;> rfl

/-- An event tells of the file, and the file stays. -/
theorem step_file (a : Assembly) (e : Event) : (a.step e).file = a.file := by
  have effect := step_effect a e
  generalize a.step e = b at effect ⊢
  cases effect with
  | ignored | named | counted | observed | dataSection | item => rfl
  | division | procedureSection | paragraph => exact closeParagraph_file a
  | entry s => exact (appendStatement_file s _).trans (closeParagraph_file a)
  | statement s => exact appendStatement_file s a

theorem run_file (a : Assembly) (events : List Event) : (a.run events).file = a.file := by
  induction events generalizing a with
  | nil => rfl
  | cons e events ih => rw [run_cons, ih, step_file]

end Assembly

theorem Program.ofSource_file (path : Path) (text : Text) : (Program.ofSource path text).file = path.text := by
  have scanned (lines : List (LineNumber × Text)) (scan : Source.Scan) :
      (lines.foldl Source.Scan.advance scan).assembly.file = scan.assembly.file := by
    induction lines generalizing scan with
    | nil => rfl
    | cons line lines ih =>
      rw [List.foldl_cons, ih]
      exact Assembly.run_file ..
  exact scanned ..

/-! ## Readers -/

/-- The programs that the reader makes name the files that they are of. -/
def Reader.NamesFile (r : Reader) : Prop := ∀ path text, (r.read path text).file = path.text

namespace Reader

variable {host : Host} {s : Settings} {fs fs' : FileSystem}

theorem lines_namesFile : lines.NamesFile := Program.ofSource_file

theorem trees_namesFile (profile : Profile) (parse : Text → Node) : (trees profile parse).NamesFile :=
  fun _ _ => Assembly.run_file _ _

theorem namesFile_of_ofGrammar {found : Option Reader} (ran : (ofGrammar host s).Gives fs found fs') :
    ∀ r ∈ found, r.NamesFile := by
  rw [ofGrammar, gives_bind] at ran
  obtain ⟨library, _, -, ran⟩ := ran
  intro r isFound
  cases library with
  | none =>
    obtain ⟨rfl, -⟩ := gives_pure.1 ran
    cases isFound
  | some library =>
    simp only [gives_map] at ran
    obtain ⟨_, ⟨parse, -, rfl⟩, rfl⟩ := ran
    cases isFound
    exact trees_namesFile s.profile parse

/-- Each reader that a run may use names the files. -/
theorem namesFile_of_choose {r : Reader} (chosen : (choose host s).Gives fs r fs') : r.NamesFile := by
  rw [choose] at chosen
  split at chosen
  · obtain ⟨rfl, -⟩ := gives_pure.1 chosen
    exact lines_namesFile
  · simp only [gives_bind, gives_require] at chosen
    obtain ⟨_, _, found, rfl, -⟩ := chosen
    exact namesFile_of_ofGrammar found r rfl
  · simp only [gives_bind, gives_pure] at chosen
    obtain ⟨found, _, tried, rfl, -⟩ := chosen
    cases found with
    | none => exact lines_namesFile
    | some r =>
      rcases gives_of_tryCatch tried with found | ⟨_, _, failed⟩
      · exact namesFile_of_ofGrammar found r rfl
      · cases (gives_pure.1 failed).1

/-- A program names its file as it is shown. -/
theorem NamesFile.readOrEmpty {r : Reader} (names : r.NamesFile) (fs : FileSystem) (file : Path) :
    (r.readOrEmpty fs file).file = file.shown.text := by
  rw [Reader.readOrEmpty, programOf]
  cases fs.read? file with
  | none => exact Assembly.run_file _ []
  | some content => exact names file.shown _

end Reader

end CobolAtlas
