/-
# CobolAtlas.Proofs.Repository.Output -- which structures a run keeps

A run writes the structure file of each program and then the call graph, and nothing else changes
(`writeRepository_wrote`).  What is left at a place is what was written there last, so every program can be read back
from its structure file where programs with one place are written alike and none is where the call graph is
(`Survey.kept_iff`).

The walk is taken as it comes: all that is known of it is that it comes to nothing twice and to nothing that is not
below the root.  Two of its sources have one structure file where their stems and their directories are shown alike.
A repository with `A.cbl` and `A.CBL` in one directory therefore has one structure file for both, and the structure of
`A.CBL`, which comes first, is lost.  So it is with two names that are no text and differ in a byte that is replaced.
-/
import CobolAtlas.Proofs.Program.Wire
import CobolAtlas.Proofs.Repository.Reader
import CobolAtlas.Proofs.Repository.StructurePath
import CobolAtlas.Proofs.Repository.Walk
import Mathlib.Data.List.Pairwise

namespace CobolAtlas

set_option autoImplicit false

open Run FileSystem

variable {host : Host} {s : Settings} {fs fs' fs'' : FileSystem}

/-! ## Structures in files -/

/-- Can the program be read back from the file? -/
def FileSystem.Keeps (fs : FileSystem) (file : Path) (p : Program) : Prop :=
  (fs.read? file).bind Program.ofContent? = some p.written

instance (fs : FileSystem) (file : Path) (p : Program) : Decidable (fs.Keeps file p) :=
  inferInstanceAs (Decidable (_ = _))

/-- A call graph is no structure: it is an array of objects, and the first field of a program is a string. -/
theorem CallGraph.ofContent?_fileContent (g : CallGraph) : Program.ofContent? g.toJson.fileContent = none := by
  rw [Program.ofContent?, Json.fileContent, Utf8.decode?_encode, Option.bind_some, toJson,
    Json.parse?_pretty (Json.plain_ofList CallEdge.plain_toJson g.edges), Option.bind_some]
  cases g.edges with
  | nil => rfl
  | cons e edges =>
    have notText : Json.need? Json.asText? (some e.toJson) = none := rfl
    rw [Json.ofList, List.map_cons, Program.ofJson?, Json.fields?]
    split
    · simp only [Option.bind_eq_bind, Option.bind_some, List.map_cons, List.cons_append]
      split
      · rename_i fields
        rw [← (List.cons.inj fields).1, notText]
        rfl
      · rfl
    · rfl

namespace Survey

variable {survey : Survey} {output : Path}

/-- The structure file of a program of the survey. -/
def structureFile (survey : Survey) (output : Path) (p : Program) : Path := structurePath output survey.root ⟨p.file⟩

/-- The structure files with what is written to them. -/
def structureWrites (survey : Survey) (output : Path) (ps : List Program) : List (Path × Bytes) :=
  ps.map fun p => (survey.structureFile output p, p.toJson.fileContent)

/-- Can every program be read back from its structure file? -/
def Kept (survey : Survey) (output : Path) (fs : FileSystem) : Prop :=
  ∀ p ∈ survey.programs, fs.Keeps (survey.structureFile output p) p

instance (survey : Survey) (output : Path) (fs : FileSystem) : Decidable (survey.Kept output fs) :=
  inferInstanceAs (Decidable (∀ p ∈ survey.programs, _))

/-- Programs with structure files at one place are written alike. -/
def PlacesAgree (survey : Survey) (output : Path) (fs : FileSystem) : Prop :=
  ∀ p ∈ survey.programs, ∀ q ∈ survey.programs,
    fs.resolve (survey.structureFile output p) = fs.resolve (survey.structureFile output q) → p.written = q.written

instance (survey : Survey) (output : Path) (fs : FileSystem) : Decidable (survey.PlacesAgree output fs) :=
  inferInstanceAs (Decidable (∀ p ∈ survey.programs, ∀ q ∈ survey.programs, _ → _))

/-- Programs with one structure file are written alike. -/
def PathsAgree (survey : Survey) (output : Path) : Prop :=
  ∀ p ∈ survey.programs, ∀ q ∈ survey.programs,
    (survey.structureFile output p).same (survey.structureFile output q) = true → p.written = q.written

instance (survey : Survey) (output : Path) : Decidable (survey.PathsAgree output) :=
  inferInstanceAs (Decidable (∀ p ∈ survey.programs, ∀ q ∈ survey.programs, _ → _))

/-- No structure file is where the file is. -/
def ApartFrom (survey : Survey) (output : Path) (fs : FileSystem) (file : Path) : Prop :=
  ∀ p ∈ survey.programs, fs.resolve (survey.structureFile output p) ≠ fs.resolve file

instance (survey : Survey) (output : Path) (fs : FileSystem) (file : Path) :
    Decidable (survey.ApartFrom output fs file) :=
  inferInstanceAs (Decidable (∀ p ∈ survey.programs, _ ≠ _))

/-! ## What is written -/

theorem wrote_of_writeJson {file : Path} {v : Json} {u : Unit} (home : fs.AllDirectories fs.current)
    (ran : (writeJson file v).Gives fs u fs') : Wrote [(file, v.fileContent)] fs fs' := by
  rw [writeJson, gives_bind] at ran
  obtain ⟨_, _, parent, written⟩ := ran
  have made := wrote_of_makeParent parent
  exact made.append (wrote_of_write (made.grows.home home) written)

theorem wrote_of_mapM_writeStructure {ps : List Program} {files : List Path} (home : fs.AllDirectories fs.current)
    (ran : (ps.mapM (survey.writeStructure output)).Gives fs files fs') :
    files = ps.map (survey.structureFile output) ∧ Wrote (survey.structureWrites output ps) fs fs' := by
  induction ps generalizing fs files with
  | nil =>
    obtain ⟨rfl, rfl⟩ := gives_pure.1 ran
    exact ⟨rfl, .refl fs⟩
  | cons p ps ih =>
    obtain ⟨file, _, rest, first, others, rfl⟩ := gives_mapM_cons.1 ran
    simp only [writeStructure, gives_bind, gives_pure] at first
    obtain ⟨_, _, written, rfl, rfl⟩ := first
    have wrote := wrote_of_writeJson home written
    obtain ⟨rfl, wroteOthers⟩ := ih (wrote.grows.home home) others
    exact ⟨rfl, wrote.append wroteOthers⟩

theorem wrote_of_writeStructures {files : List Path} (home : fs.AllDirectories fs.current)
    (ran : (survey.writeStructures output).Gives fs files fs') :
    files = survey.programs.map (survey.structureFile output) ∧
      Wrote (survey.structureWrites output survey.programs) fs fs' := by
  rw [writeStructures, gives_bind] at ran
  obtain ⟨_, _, directory, written⟩ := ran
  have made := wrote_of_makeDirectories directory
  obtain ⟨rfl, wrote⟩ := wrote_of_mapM_writeStructure (made.grows.home home) written
  exact ⟨rfl, made.append wrote⟩

/-- What a reader surveys of sources. -/
structure ReadBy (survey : Survey) (r : Reader) (fs : FileSystem) (sources : List Path) : Prop where
  namesFile : r.NamesFile
  programs : survey.programs = sources.map (r.readOrEmpty fs)

theorem readBy_of_take (taken : (take host s).Gives fs survey fs') :
    ∃ r, survey.ReadBy r fs' (sourcesOf survey.root s.extensions (host.walk fs' survey.root)) := by
  simp only [take, gives_bind, gives_files, gives_liftExcept, gives_pure] at taken
  obtain ⟨_, _, ⟨rfl, rfl⟩, root, _, ⟨-, rfl⟩, r, _, chosen, _, _, ⟨rfl, rfl⟩, rfl, rfl⟩ := taken
  exact ⟨r, Reader.namesFile_of_choose chosen, rfl⟩

end Survey

/-- A run writes the structure files of what it surveys, and the call graph after them. -/
theorem writeRepository_wrote {survey : Survey} {report : Report} (taken : (Survey.take host s).Gives fs survey fs')
    (home : fs'.AllDirectories fs'.current) (ran : (writeRepository host s).Gives fs report fs'') :
    report.structureFiles = survey.programs.map (survey.structureFile s.output) ∧
      ∃ between, Wrote (survey.structureWrites s.output survey.programs) fs' between ∧
        Wrote [(s.callGraph, survey.graph.toJson.fileContent)] between fs'' := by
  simp only [writeRepository, gives_bind, gives_pure] at ran
  obtain ⟨_, _, taken', files, between, structures, _, _, graph, rfl, rfl⟩ := ran
  obtain ⟨rfl, rfl⟩ := gives_unique taken taken'
  obtain ⟨rfl, wrote⟩ := Survey.wrote_of_writeStructures home structures
  exact ⟨rfl, between, wrote, Survey.wrote_of_writeJson (wrote.grows.home home) graph⟩

/-! ## What is kept -/

namespace Survey

variable {survey : Survey} {output : Path}

/-- A structure file holds a program whose structure file is at that place, or the call graph. -/
theorem read_structureFile {graph : CallGraph} {file : Path}
    (wrote : Wrote (survey.structureWrites output survey.programs) fs fs')
    (wroteGraph : Wrote [(file, graph.toJson.fileContent)] fs' fs'') {p : Program} (isProgram : p ∈ survey.programs) :
    (∃ q ∈ survey.programs,
        fs''.resolve (survey.structureFile output q) = fs''.resolve (survey.structureFile output p) ∧
        fs''.read? (survey.structureFile output p) = some q.toJson.fileContent) ∨
      fs''.resolve file = fs''.resolve (survey.structureFile output p) ∧
        fs''.read? (survey.structureFile output p) = some graph.toJson.fileContent := by
  have member : (survey.structureFile output p, p.toJson.fileContent) ∈
      survey.structureWrites output survey.programs := List.mem_map_of_mem isProgram
  obtain ⟨_, _, among, same, read⟩ := (wrote.append wroteGraph).read (List.mem_append_left _ member)
  rcases List.mem_append.1 among with structureWrite | graphWrite
  · obtain ⟨q, isProgram', written⟩ := List.mem_map.1 structureWrite
    obtain ⟨rfl, rfl⟩ := Prod.mk.inj written
    exact .inl ⟨q, isProgram', same, read⟩
  · obtain ⟨rfl, rfl⟩ := Prod.mk.inj (List.mem_singleton.1 graphWrite)
    exact .inr ⟨same, read⟩

/-- All programs are kept where those at one place are written alike and none is where the call graph is. -/
theorem kept_iff {graph : CallGraph} {file : Path} (wrote : Wrote (survey.structureWrites output survey.programs) fs fs')
    (wroteGraph : Wrote [(file, graph.toJson.fileContent)] fs' fs'') :
    survey.Kept output fs'' ↔ survey.PlacesAgree output fs'' ∧ survey.ApartFrom output fs'' file := by
  have readGraph : fs''.read? file = some graph.toJson.fileContent := by
    obtain ⟨_, _, member, -, read⟩ := wroteGraph.read (List.mem_singleton_self _)
    rw [read, (Prod.mk.inj (List.mem_singleton.1 member)).2]
  constructor
  · intro kept
    constructor
    · -- Two programs at one place are read back from one content.
      intro p isProgram q isProgram' same
      have read : fs''.read? (survey.structureFile output p) = fs''.read? (survey.structureFile output q) :=
        read?_congr same
      have decoded := kept p isProgram
      rw [Keeps, read, kept q isProgram'] at decoded
      exact (Option.some.inj decoded).symm
    · -- The call graph was written last, and it is no structure.
      intro p isProgram same
      have decoded := kept p isProgram
      rw [Keeps, read?_congr same, readGraph, Option.bind_some, graph.ofContent?_fileContent] at decoded
      cases decoded
  · rintro ⟨agree, apart⟩ p isProgram
    rcases read_structureFile wrote wroteGraph isProgram with ⟨q, isProgram', same, read⟩ | ⟨same, -⟩
    · rw [Keeps, read, ← agree q isProgram' p isProgram same, Option.bind_some, q.ofContent?_fileContent]
    · exact absurd same.symm (apart p isProgram)

namespace ReadBy

variable {r : Reader} {sources : List Path} (readBy : survey.ReadBy r fs sources)

include readBy

theorem map_file : survey.programs.map (·.file) = sources.map (·.shown.text) := by
  rw [readBy.programs, List.map_map]
  exact List.map_congr_left fun a _ => readBy.namesFile.readOrEmpty fs a

/-- Every program is of a source. -/
theorem exists_source {p : Program} (isProgram : p ∈ survey.programs) : ∃ a ∈ sources, p.file = a.shown.text := by
  have file : p.file ∈ survey.programs.map (·.file) := List.mem_map_of_mem isProgram
  rw [readBy.map_file] at file
  obtain ⟨a, isSource, same⟩ := List.mem_map.1 file
  exact ⟨a, isSource, same.symm⟩

/-- The structure files are those of what is shown of the sources. -/
theorem structureFiles (output : Path) : survey.programs.map (survey.structureFile output) =
    sources.map fun a => structurePath output survey.root a.shown := by
  rw [readBy.programs, List.map_map]
  exact List.map_congr_left fun a _ => by rw [Function.comp_apply, structureFile, readBy.namesFile.readOrEmpty]

end ReadBy

section Walk

variable {r : Reader} {sources : List Path} {walk : List Sighting} {extensions : List Text}
  (readBy : survey.ReadBy r fs sources) (isWalk : IsWalk survey.root walk)
  (listed : sourcesOf survey.root extensions walk = sources)

include isWalk listed

theorem exists_below {a : Path} (isSource : a ∈ sources) :
    ∃ dir n, a.components = survey.root.components ++ Path.namesOf (dir ++ [n]) := by
  rw [← listed, isWalk.mem_sourcesOf_iff] at isSource
  obtain ⟨-, dir, n, -, -, below, -⟩ := isSource
  exact ⟨dir, n, below⟩

theorem nodup_of_isWalk : sources.Nodup := by
  rw [← listed]
  refine (isWalk.pairwise_sourcesOf extensions).imp fun before same => ?_
  rw [same] at before
  exact lt_irrefl _ before

include readBy

/-- Structure files are different paths where no two sources share one. -/
theorem pairwise_structureFiles_iff (output : Path) :
    (survey.programs.map (survey.structureFile output)).Pairwise (fun f g => f.same g = false) ↔
      ∀ a ∈ sources, ∀ b ∈ sources, SharesStructure survey.root a b → a = b := by
  have shared {a b : Path} (isSource : a ∈ sources) (isSource' : b ∈ sources) :
      (structurePath output survey.root a.shown).same (structurePath output survey.root b.shown) = false ↔
        ¬ SharesStructure survey.root a b := by
    obtain ⟨_, _, below⟩ := exists_below isWalk listed isSource
    obtain ⟨_, _, below'⟩ := exists_below isWalk listed isSource'
    rw [← same_structurePath_shown_iff below below' output, Bool.not_eq_true]
  have symmetric : Std.Symm fun a b : Path =>
      (structurePath output survey.root a.shown).same (structurePath output survey.root b.shown) = false := by
    refine ⟨fun a b apart => ?_⟩
    rw [Bool.eq_false_iff, Ne, Path.same_iff] at apart ⊢
    exact Ne.symm apart
  rw [readBy.structureFiles, List.pairwise_map]
  constructor
  · intro apart a isSource b isSource' shares
    by_contra differ
    exact (shared isSource isSource').1 (apart.forall isSource isSource' differ) shares
  · intro once
    refine (nodup_of_isWalk isWalk listed).imp_of_mem fun isSource isSource' differ => ?_
    exact (shared isSource isSource').2 fun shares => differ (once _ isSource _ isSource' shares)

/-- Where there are no links below the output directory, structure files are at one place if they are the same path. -/
theorem placesAgree_iff {output : Path} (noLinks : fs'.NoLinksBelow output) (home : fs'.AllDirectories fs'.current)
    (there : ∀ p ∈ survey.programs, ∃ content, fs'.read? (survey.structureFile output p) = some content) :
    survey.PlacesAgree output fs' ↔ survey.PathsAgree output := by
  -- Without links the steps of a structure file lead straight down, so the place tells the path.
  have placed {p : Program} (isProgram : p ∈ survey.programs) : ∃ d dir n, IsName n ∧
      fs'.destination (fs'.origin output) (stepsOf output) = .ok d ∧
        fs'.resolve (survey.structureFile output p) =
          .ok (d ++ (dir ++ [Path.replaced (Path.splitName n).1 structureExtension])) ∧
        (survey.structureFile output p).components =
          output.components ++ Path.namesOf dir ++ [structureStep (Path.splitName n).1] := by
    obtain ⟨a, isSource, file⟩ := readBy.exists_source isProgram
    obtain ⟨dir, n, below⟩ := exists_below isWalk listed isSource
    obtain ⟨xs, leads, path⟩ := exists_structurePath_shown below output
    obtain ⟨nonempty, noSlash⟩ := Path.stem_of_isName leads.isName
    obtain ⟨content, read⟩ := there p isProgram
    obtain ⟨l, modified, executable, found, isFile⟩ := exists_of_read? read
    have spelled : survey.structureFile output p =
        (output.join ⟨Text.joinWith ['/'] (xs ++ [Path.shownText n])⟩).withExtension structureExtension := by
      rw [structureFile, file]
      exact path
    have steps := components_withExtension_join leads output
    rw [← spelled] at steps
    rw [withExtension_join leads] at spelled
    rw [spelled] at found
    obtain ⟨d, isDestination, -, rfl⟩ :=
      resolve_within home noLinks leads.row leads.directory (isPiece_replaced nonempty noSlash) ⟨_, _, _, isFile⟩ found
    exact ⟨d, _, _, leads.isName, isDestination, spelled ▸ found, steps⟩
  refine forall₂_congr fun p isProgram => forall₂_congr fun q isProgram' => imp_congr_left ?_
  obtain ⟨d, dir, n, isName, isDestination, found, steps⟩ := placed isProgram
  obtain ⟨d', dir', n', isName', isDestination', found', steps'⟩ := placed isProgram'
  obtain rfl : d = d' := Except.ok.inj (isDestination.symm.trans isDestination')
  have places : d ++ (dir ++ [Path.replaced (Path.splitName n).1 structureExtension]) =
      d ++ (dir' ++ [Path.replaced (Path.splitName n').1 structureExtension]) ↔
        dir = dir' ∧ (Path.splitName n).1 = (Path.splitName n').1 := by
    rw [List.append_right_inj, ← replaced_inj isName isName']
    refine ⟨fun same => (List.append_inj' same rfl).imp_right List.singleton_inj.1, ?_⟩
    rintro ⟨rfl, last⟩
    rw [last]
  rw [found, found', Path.same_iff, steps, steps', namesOf_concat_step_inj, ← places]
  exact ⟨Except.ok.inj, congrArg _⟩

/-- Where different sources are shown apart, programs of one structure file are written alike only if they are of one
source. -/
theorem pathsAgree_iff (output : Path) (shownApart : ∀ a ∈ sources, ∀ b ∈ sources, a.shown = b.shown → a = b) :
    survey.PathsAgree output ↔
      (survey.programs.map (survey.structureFile output)).Pairwise fun f g => f.same g = false := by
  have same_iff {a b : Path} (isSource : a ∈ sources) (isSource' : b ∈ sources) :
      (survey.structureFile output (r.readOrEmpty fs a)).same (survey.structureFile output (r.readOrEmpty fs b)) = true ↔
        SharesStructure survey.root a b := by
    obtain ⟨_, _, below⟩ := exists_below isWalk listed isSource
    obtain ⟨_, _, below'⟩ := exists_below isWalk listed isSource'
    rw [← same_structurePath_shown_iff below below' output, structureFile, structureFile, readBy.namesFile.readOrEmpty,
      readBy.namesFile.readOrEmpty]
  rw [pairwise_structureFiles_iff readBy isWalk listed, PathsAgree, readBy.programs]
  simp only [List.forall_mem_map]
  refine forall₂_congr fun a isSource => forall₂_congr fun b isSource' => ?_
  rw [same_iff isSource isSource']
  refine imp_congr_right fun _ => ⟨fun agree => shownApart a isSource b isSource' ?_, fun same => by rw [same]⟩
  have file : (r.readOrEmpty fs a).file = (r.readOrEmpty fs b).file :=
    show (r.readOrEmpty fs a).written.file = (r.readOrEmpty fs b).written.file by rw [agree]
  rw [readBy.namesFile.readOrEmpty, readBy.namesFile.readOrEmpty] at file
  exact congrArg Path.mk file

end Walk

end Survey

/-- **Which structures a run keeps.**  The programs of a survey are those of the sources of its walk, under the paths
that are shown of them.  Every program can be read back from its structure file exactly if programs at one place are
written alike and none is where the call graph is.  The structure files of the report are different paths exactly if no
two sources have one stem in one directory, by what is shown.  Where there are no links below the output directory,
different paths are different places; and where different sources are shown apart, all structures are kept exactly if
the structure files are different paths and none leads to where the call graph is. -/
theorem writeRepository_keeps_iff {survey : Survey} {report : Report} {sources : List Path}
    (taken : (Survey.take host s).Gives fs survey fs') (isWalk : IsWalk survey.root (host.walk fs' survey.root))
    (listed : sourcesOf survey.root s.extensions (host.walk fs' survey.root) = sources)
    (home : fs'.AllDirectories fs'.current) (ran : (writeRepository host s).Gives fs report fs'') :
    survey.programs.map (·.file) = sources.map (·.shown.text) ∧
      report.structureFiles = survey.programs.map (survey.structureFile s.output) ∧
      (report.structureFiles.Pairwise (fun f g => f.same g = false) ↔
        ∀ a ∈ sources, ∀ b ∈ sources, SharesStructure survey.root a b → a = b) ∧
      (survey.Kept s.output fs'' ↔ survey.PlacesAgree s.output fs'' ∧ survey.ApartFrom s.output fs'' s.callGraph) ∧
      (fs''.NoLinksBelow s.output →
        (survey.Kept s.output fs'' ↔ survey.PathsAgree s.output ∧ survey.ApartFrom s.output fs'' s.callGraph) ∧
          ((∀ a ∈ sources, ∀ b ∈ sources, a.shown = b.shown → a = b) →
            (survey.Kept s.output fs'' ↔ report.structureFiles.Pairwise (fun f g => f.same g = false) ∧
              survey.ApartFrom s.output fs'' s.callGraph))) := by
  obtain ⟨files, between, wrote, wroteGraph⟩ := writeRepository_wrote taken home ran
  obtain ⟨r, readBy⟩ := Survey.readBy_of_take taken
  rw [listed] at readBy
  have kept := Survey.kept_iff wrote wroteGraph
  refine ⟨readBy.map_file, files, ?_, kept, fun noLinks => ?_⟩
  · rw [files, Survey.pairwise_structureFiles_iff readBy isWalk listed]
  · have there : ∀ p ∈ survey.programs, ∃ content, fs''.read? (survey.structureFile s.output p) = some content := by
      intro p isProgram
      rcases Survey.read_structureFile wrote wroteGraph isProgram with ⟨_, _, _, read⟩ | ⟨_, read⟩
      · exact ⟨_, read⟩
      · exact ⟨_, read⟩
    have home' := (wrote.append wroteGraph).grows.home home
    rw [Survey.placesAgree_iff readBy isWalk listed noLinks home' there] at kept
    refine ⟨kept, fun shownApart => ?_⟩
    rw [kept, files, Survey.pathsAgree_iff readBy isWalk listed s.output shownApart]

/-- A run over `/r` with the reader of lines. -/
def Settings.overR : Settings :=
  { Settings.standard with
    repository := ⟨"/r".toList⟩
    output := ⟨"/out".toList⟩
    callGraph := ⟨"/graph.json".toList⟩
    reader := .lines }

/-- The files that a run over `/r` leaves. -/
def leftOf (fs : FileSystem) : FileSystem := ((writeRepository .bare .overR).run.run fs).2

theorem gives_leftOf {report : Report} (ran : ((writeRepository .bare .overR).run.run fs).1 = .ok report) :
    (writeRepository .bare .overR).Gives fs report (leftOf fs) := Prod.ext ran rfl

/-- The survey of sources below `/r`. -/
def surveyOf (fs : FileSystem) (sources : List Path) : Survey :=
  .ofPrograms ⟨"/r".toList⟩ Reader.lines.name (sources.map (Reader.lines.readOrEmpty fs))

theorem gives_surveyOf {sources : List Path} (root : Settings.overR.root? fs = .ok ⟨"/r".toList⟩)
    (listed : sourcesOf ⟨"/r".toList⟩ ["cbl".toList] (fs.walk ⟨"/r".toList⟩) = sources) :
    (Survey.take .bare .overR).Gives fs (surveyOf fs sources) fs := by
  have chosen : Reader.choose .bare .overR = pure Reader.lines := rfl
  simp only [Survey.take, chosen, gives_bind, gives_files, gives_liftExcept, gives_pure]
  refine ⟨fs, fs, ⟨rfl, rfl⟩, _, fs, ⟨root, rfl⟩, _, fs, ⟨rfl, rfl⟩, fs, fs, ⟨rfl, rfl⟩, ?_, rfl⟩
  rw [surveyOf, ← listed]
  rfl

/-- One name in two directories. -/
def twoDirectories : FileSystem where
  entries := [(["r".toList], .directory), (["r".toList, "A.cbl".toList], .file [] 0 false),
    (["r".toList, "b".toList], .directory), (["r".toList, "b".toList, "A.CBL".toList], .file [] 0 false)]
  current := []
  clock := 0

/-- The sources of `twoDirectories`. -/
def inDirectories : List Path := [⟨"/r/A.cbl".toList⟩, ⟨"/r/b/A.CBL".toList⟩]

theorem writeRepository_keeps_iff_twoDirectories :
    (Survey.take .bare .overR).Gives twoDirectories (surveyOf twoDirectories inDirectories) twoDirectories ∧
      IsWalk ⟨"/r".toList⟩ (twoDirectories.walk ⟨"/r".toList⟩) ∧
      twoDirectories.AllDirectories twoDirectories.current ∧
      ∃ report, (writeRepository .bare .overR).Gives twoDirectories report (leftOf twoDirectories) ∧
        report.structureFiles = [⟨"/out/A.structure.json".toList⟩, ⟨"/out/b/A.structure.json".toList⟩] ∧
        (surveyOf twoDirectories inDirectories).Kept Settings.overR.output (leftOf twoDirectories) := by
  have listed : sourcesOf ⟨"/r".toList⟩ ["cbl".toList] (twoDirectories.walk ⟨"/r".toList⟩) = inDirectories := by
    decide +kernel
  have taken : (Survey.take .bare .overR).Gives twoDirectories (surveyOf twoDirectories inDirectories) twoDirectories :=
    gives_surveyOf (by decide +kernel) listed
  have wellFormed : twoDirectories.WellFormed := ⟨by decide +kernel, by decide +kernel, .nil _⟩
  have isWalk := FileSystem.isWalk_walk wellFormed ⟨"/r".toList⟩
  have ran : (writeRepository .bare .overR).Gives twoDirectories
      ⟨2, "heuristic".toList, ⟨0, 0, 0, []⟩, ⟨"/out".toList⟩, ⟨"/graph.json".toList⟩,
        [⟨"/out/A.structure.json".toList⟩, ⟨"/out/b/A.structure.json".toList⟩]⟩ (leftOf twoDirectories) :=
    gives_leftOf (by decide +kernel)
  obtain ⟨-, -, -, kept, -⟩ := writeRepository_keeps_iff taken isWalk listed wellFormed.home ran
  exact ⟨taken, isWalk, wellFormed.home, _, ran, rfl, kept.2 ⟨by decide +kernel, by decide +kernel⟩⟩

/-- One name with two spellings of its extension. -/
def twoSpellings : FileSystem where
  entries := [(["r".toList], .directory), (["r".toList, "A.cbl".toList], .file [] 0 false),
    (["r".toList, "A.CBL".toList], .file [] 0 false)]
  current := []
  clock := 0

/-- The sources of `twoSpellings`. -/
def inSpellings : List Path := [⟨"/r/A.CBL".toList⟩, ⟨"/r/A.cbl".toList⟩]

/-- Two programs are surveyed, and both structures go to one file: that of `A.CBL` is lost. -/
theorem writeRepository_loses_spelling :
    (Survey.take .bare .overR).Gives twoSpellings (surveyOf twoSpellings inSpellings) twoSpellings ∧
      twoSpellings.WellFormed ∧
      ∃ report, (writeRepository .bare .overR).Gives twoSpellings report (leftOf twoSpellings) ∧
        report.programs = 2 ∧ ¬ report.structureFiles.Nodup ∧
        (surveyOf twoSpellings inSpellings).ApartFrom Settings.overR.output (leftOf twoSpellings)
          Settings.overR.callGraph ∧
        ¬ (surveyOf twoSpellings inSpellings).Kept Settings.overR.output (leftOf twoSpellings) := by
  have taken : (Survey.take .bare .overR).Gives twoSpellings (surveyOf twoSpellings inSpellings) twoSpellings :=
    gives_surveyOf (by decide +kernel) (by decide +kernel)
  have ran : (writeRepository .bare .overR).Gives twoSpellings
      ⟨2, "heuristic".toList, ⟨0, 0, 0, []⟩, ⟨"/out".toList⟩, ⟨"/graph.json".toList⟩,
        [⟨"/out/A.structure.json".toList⟩, ⟨"/out/A.structure.json".toList⟩]⟩ (leftOf twoSpellings) :=
    gives_leftOf (by decide +kernel)
  exact ⟨taken, ⟨by decide +kernel, by decide +kernel, .nil _⟩, _, ran, rfl, by decide, by decide +kernel,
    by decide +kernel⟩

end CobolAtlas
