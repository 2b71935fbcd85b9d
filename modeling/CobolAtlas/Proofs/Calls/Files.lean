/-
# CobolAtlas.Proofs.Calls.Files -- the call graph file by file

The edges of a call graph are those of the programs in order, and each edge names the file of its program.  So where
every file has one program, the edges that leave a file are those of its program, and the files part the edges between
them (`callsFrom_file`, `flatMap_callsFrom`).  A text that is read line by line has an edge for each CALL statement of
its paragraphs (`Program.ofSource_calls`), and an edge that leads to a file leads to a program of the target's name
(`exists_of_lookup`).

The main statement is `callsFrom_ofSources`.
-/
import CobolAtlas.Proofs.Calls.Resolution
import CobolAtlas.Proofs.Repository.Reader
import CobolAtlas.Proofs.Source.Extents

namespace CobolAtlas

set_option autoImplicit false

/-- An edge with the file that an index gives for its target. -/
def CallEdge.resolved (index : ProgramIndex) (e : CallEdge) : CallEdge :=
  { e with toFile := index.lookup e.toProgram }

/-- The edges of a text are those of the CALL statements in it. -/
theorem Program.ofSource_calls (path : Path) (text : Text) :
    (Program.ofSource path text).calls =
      (Program.ofSource path text).paragraphs.flatMap (Paragraph.callEdges (Program.ofSource path text).file) := by
  have start : (Assembly.start path Source.backendName).Agrees := Assembly.start_agrees path Source.backendName
  exact Assembly.finish_calls
    (Source.foldl_advance_keeps (fun _ _ agrees => Assembly.run_agrees agrees _) (Source.codeLines text) start)

theorem Paragraph.fromFile_of_mem_callEdges {file : Text} {q : Paragraph} {e : CallEdge} (member : e ∈ q.callEdges file) :
    e.fromFile = file := by
  obtain ⟨s, -, rfl⟩ := List.mem_map.1 member
  rfl

namespace ProgramIndex

/-- A name leads to a file of a program of that name, letter case aside. -/
theorem exists_of_lookup {programs : List Program} {name file : Text}
    (found : (ofPrograms programs).lookup name = some file) :
    ∃ p ∈ programs, p.file = file ∧ Text.lower p.id = Text.lower name := by
  have named : name ≠ [] := by
    rintro rfl
    rw [lookup_nil] at found
    cases found
  rw [lookup_ofPrograms programs named, Option.map_eq_some_iff] at found
  obtain ⟨p, first, rfl⟩ := found
  rcases Option.or_eq_some_iff.1 first with declared | ⟨-, stem⟩
  · have declares : declares name p = true := List.find?_some declared
    have same := (Bool.and_eq_true_iff.1 declares).2
    exact ⟨p, List.mem_of_find?_eq_some declared, rfl, beq_iff_eq.1 same⟩
  · have hasStem : hasStem name p = true := List.find?_some stem
    have same := (Bool.and_eq_true_iff.1 hasStem).2
    exact ⟨p, List.mem_of_find?_eq_some stem, rfl, beq_iff_eq.1 same⟩

end ProgramIndex

namespace CallGraph

/-! ## Parting the edges -/

section Parting

variable {α β γ : Type} [BEq γ] [LawfulBEq γ] {part : α → List β} {key : α → γ} {owner : β → γ} {as : List α}

/-- What the parts hold is found again by its owner, where each part has an owner of its own. -/
theorem filter_owner (owned : ∀ a ∈ as, ∀ b ∈ part a, owner b = key a) (distinct : (as.map key).Nodup) {a : α}
    (member : a ∈ as) : (as.flatMap part).filter (owner · == key a) = part a := by
  induction as with
  | nil => cases member
  | cons first as ih =>
    obtain ⟨here, later⟩ := List.forall_mem_cons.1 owned
    obtain ⟨fresh, distinct⟩ := List.nodup_cons.1 distinct
    rw [List.flatMap_cons, List.filter_append]
    rcases List.mem_cons.1 member with rfl | among
    · have mine : (part a).filter (owner · == key a) = part a :=
        List.filter_eq_self.2 fun b inPart => beq_iff_eq.2 (here b inPart)
      have others : (as.flatMap part).filter (owner · == key a) = [] := by
        refine List.filter_eq_nil_iff.2 fun b inParts isOwner => ?_
        obtain ⟨other, isOther, inPart⟩ := List.mem_flatMap.1 inParts
        exact fresh (List.mem_map.2 ⟨other, isOther, (later other isOther b inPart).symm.trans (beq_iff_eq.1 isOwner)⟩)
      rw [mine, others, List.append_nil]
    · have others : (part first).filter (owner · == key a) = [] := by
        refine List.filter_eq_nil_iff.2 fun b inPart isOwner => ?_
        exact fresh (List.mem_map.2 ⟨a, among, (beq_iff_eq.1 isOwner).symm.trans (here b inPart)⟩)
      rw [others, List.nil_append, ih later distinct among]

end Parting

/-! ## Edges that leave a file -/

section Leaving

variable {programs : List Program} (index : ProgramIndex)

theorem edges_ofPrograms (programs : List Program) :
    (ofPrograms programs index).edges = programs.flatMap fun p => p.calls.map (CallEdge.resolved index) :=
  List.map_flatMap

/-- The edges that leave a file are those of its program. -/
theorem callsFrom_file (own : ∀ p ∈ programs, ∀ e ∈ p.calls, e.fromFile = p.file)
    (distinct : (programs.map (·.file)).Nodup) {p : Program} (member : p ∈ programs) :
    (ofPrograms programs index).callsFrom p.file = p.calls.map (CallEdge.resolved index) := by
  rw [callsFrom, edges_ofPrograms]
  refine filter_owner (fun q isProgram e inCalls => ?_) distinct member
  obtain ⟨e, isCall, rfl⟩ := List.mem_map.1 inCalls
  exact own q isProgram e isCall

/-- File after file, all edges leave a file. -/
theorem flatMap_callsFrom (own : ∀ p ∈ programs, ∀ e ∈ p.calls, e.fromFile = p.file)
    (distinct : (programs.map (·.file)).Nodup) :
    (programs.flatMap fun p => (ofPrograms programs index).callsFrom p.file) = (ofPrograms programs index).edges := by
  rw [edges_ofPrograms]
  exact List.flatMap_congr fun p member => callsFrom_file index own distinct member

end Leaving

/-- **The call graph is parted by files.**  Of texts in files of different names, the edges that leave a file are
the CALL statements of its paragraphs in order, with nothing filled in but the file of the target.  File after file they
are all edges of the graph, and each target that has a file has that of a program of its name, letter case aside. -/
theorem callsFrom_ofSources (sources : List (Path × Text)) (distinct : (sources.map fun s => s.1.text).Nodup) :
    let programs := sources.map fun s => Program.ofSource s.1 s.2
    let index := ProgramIndex.ofPrograms programs
    let graph := ofPrograms programs index
    (∀ p ∈ programs, graph.callsFrom p.file = p.paragraphs.flatMap fun q =>
      (q.statements.filter fun s => s.kind = .call).map fun s =>
        { fromFile := p.file
          fromParagraph := q.name
          line := s.line
          toProgram := s.target
          toFile := index.lookup s.target
          dynamic := s.dynamic }) ∧
    (programs.flatMap fun p => graph.callsFrom p.file) = graph.edges ∧
    ∀ e ∈ graph.edges, ∀ file, e.toFile = some file →
      ∃ p ∈ programs, p.file = file ∧ Text.lower p.id = Text.lower e.toProgram := by
  intro programs index graph
  have calls : ∀ p ∈ programs, p.calls = p.paragraphs.flatMap (Paragraph.callEdges p.file) := by
    intro p member
    obtain ⟨s, -, rfl⟩ := List.mem_map.1 member
    exact Program.ofSource_calls s.1 s.2
  have own : ∀ p ∈ programs, ∀ e ∈ p.calls, e.fromFile = p.file := by
    intro p member e isCall
    rw [calls p member] at isCall
    obtain ⟨q, -, inParagraph⟩ := List.mem_flatMap.1 isCall
    exact Paragraph.fromFile_of_mem_callEdges inParagraph
  have files : (programs.map (·.file)).Nodup := by
    have same : programs.map (·.file) = sources.map fun s => s.1.text := by
      rw [List.map_map]
      exact List.map_congr_left fun s _ => Program.ofSource_file s.1 s.2
    rwa [same]
  refine ⟨fun p member => ?_, flatMap_callsFrom index own files, fun e member file toFile => ?_⟩
  · rw [callsFrom_file index own files member, calls p member, List.map_flatMap]
    refine List.flatMap_congr fun q _ => ?_
    rw [Paragraph.callEdges, List.map_map]
    rfl
  · rw [edges_ofPrograms] at member
    obtain ⟨p, -, isCall⟩ := List.mem_flatMap.1 member
    obtain ⟨e, -, rfl⟩ := List.mem_map.1 isCall
    exact ProgramIndex.exists_of_lookup toFile

/-- Two programs that call each other, in different letter cases, and one that neither of them is. -/
def mutualCalls : List (Path × Text) :=
  [(⟨"/src/MAIN.cbl".toList⟩,
      ("PROGRAM-ID. MAIN.\nPROCEDURE DIVISION.\nSTART-PARA.\n    CALL 'sub'.\n" ++
        "NEXT-PARA.\n    CALL 'OTHER'.\n").toList),
    (⟨"/src/SUB.cbl".toList⟩, "PROGRAM-ID. SUB.\nPROCEDURE DIVISION.\n    CALL MAIN.\n".toList)]

/-- The edges that leave the two files. -/
theorem callsFrom_ofSources_mutual :
    let graph := ofPrograms (mutualCalls.map fun s => Program.ofSource s.1 s.2)
      (ProgramIndex.ofPrograms (mutualCalls.map fun s => Program.ofSource s.1 s.2))
    (mutualCalls.map fun s => s.1.text).Nodup ∧
    graph.callsFrom "/src/MAIN.cbl".toList =
      [⟨"/src/MAIN.cbl".toList, "START-PARA".toList, 4, "sub".toList, some "/src/SUB.cbl".toList, false⟩,
        ⟨"/src/MAIN.cbl".toList, "NEXT-PARA".toList, 6, "OTHER".toList, none, false⟩] ∧
    graph.callsFrom "/src/SUB.cbl".toList =
      [⟨"/src/SUB.cbl".toList, "(entry)".toList, 3, "MAIN".toList, some "/src/MAIN.cbl".toList, true⟩] := by
  intro graph
  have distinct : (mutualCalls.map fun s => s.1.text).Nodup := by decide
  obtain ⟨each, -, -⟩ := callsFrom_ofSources mutualCalls distinct
  have main := each (Program.ofSource ⟨"/src/MAIN.cbl".toList⟩ _) (.head _)
  have sub := each (Program.ofSource ⟨"/src/SUB.cbl".toList⟩ _) (.tail _ (.head _))
  rw [Program.ofSource_file] at main sub
  exact ⟨distinct, main.trans (by decide +kernel), sub.trans (by decide +kernel)⟩

end CallGraph

end CobolAtlas
