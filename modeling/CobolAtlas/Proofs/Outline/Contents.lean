/-
# CobolAtlas.Proofs.Outline.Contents -- an outline loses nothing and doubles nothing

The node of a program shows what the program records: `Shows`.  Where sections share a name only the last of them
holds the paragraphs of that name, and a paragraph whose section is not listed stands right below the division; so
each paragraph has one node (`paragraphs_perm`).  Data sections, sections and paragraphs hang below division nodes
found by name, and all are shown because what is recorded has its division (`shows_ofProgram`).

Together with one file for each program (`files_ofPrograms`) that is `ofPrograms_shows`.
-/
import CobolAtlas.Proofs.Outline.Basic
import CobolAtlas.Proofs.Source.Housing

namespace CobolAtlas

set_option autoImplicit false

/-! ## Paragraphs by sections -/

/-- Does the paragraph name one of the sections? -/
def Paragraph.standsIn (sections : List ProcedureSection) (q : Paragraph) : Bool :=
  q.inSection.any fun name => sections.any (·.name == name)

theorem Paragraph.standsIn_cons (s : ProcedureSection) (later : List ProcedureSection) (q : Paragraph) :
    q.standsIn (s :: later) = (q.inSection == some s.name || q.standsIn later) := by
  cases inSection : q.inSection with
  | none => simp [standsIn, inSection]
  | some name => simp [standsIn, inSection, BEq.comm]

/-- Below a later section of the same name, a section is named by no new paragraph. -/
theorem Paragraph.standsIn_cons_of_again {s : ProcedureSection} {later : List ProcedureSection}
    (again : later.any (·.name == s.name) = true) (q : Paragraph) : q.standsIn (s :: later) = q.standsIn later := by
  rw [standsIn_cons]
  cases named : q.inSection == some s.name with
  | false => rfl
  | true =>
    have inLater : q.standsIn later = true := by
      rw [standsIn, beq_iff_eq.1 named]
      exact again
    rw [inLater, Bool.or_true]

/-- Where no later section has the name, a paragraph that names a later section does not name this one. -/
theorem Paragraph.standsIn_later {s : ProcedureSection} {later : List ProcedureSection}
    (last : later.any (·.name == s.name) = false) (q : Paragraph) :
    (!(q.inSection == some s.name) && q.standsIn (s :: later)) = q.standsIn later := by
  rw [standsIn_cons]
  cases named : q.inSection == some s.name with
  | false => rfl
  | true =>
    have notLater : q.standsIn later = false := by
      rw [standsIn, beq_iff_eq.1 named]
      exact last
    rw [notLater]
    rfl

namespace Program

/-- The paragraphs that the outline puts below a section. -/
def heldBy (p : Program) (s : ProcedureSection) (later : List ProcedureSection) : List Paragraph :=
  if later.any (·.name == s.name) then [] else p.paragraphsIn s.name

theorem looseParagraphs_eq (p : Program) : p.looseParagraphs = p.paragraphs.filter (!·.standsIn p.sections) := by
  rw [looseParagraphs]
  refine List.filter_congr fun q _ => ?_
  cases inSection : q.inSection <;> simp [Paragraph.standsIn, inSection]

/-- The paragraphs below a section and those of later sections are all that name one of these. -/
theorem heldBy_perm (p : Program) (s : ProcedureSection) (later : List ProcedureSection) :
    (p.heldBy s later ++ p.paragraphs.filter (·.standsIn later)).Perm
      (p.paragraphs.filter (·.standsIn (s :: later))) := by
  cases again : later.any (·.name == s.name) with
  | true =>
    rw [heldBy, again, if_pos rfl, List.nil_append, funext (Paragraph.standsIn_cons_of_again again)]
  | false =>
    have here : (p.paragraphs.filter (·.standsIn (s :: later))).filter (·.inSection == some s.name) =
        p.paragraphsIn s.name := by
      rw [List.filter_filter, paragraphsIn]
      refine List.filter_congr fun q _ => ?_
      rw [Paragraph.standsIn_cons]
      cases q.inSection == some s.name <;> rfl
    have elsewhere : (p.paragraphs.filter (·.standsIn (s :: later))).filter (!·.inSection == some s.name) =
        p.paragraphs.filter (·.standsIn later) := by
      rw [List.filter_filter]
      exact List.filter_congr fun q _ => Paragraph.standsIn_later again q
    have parts := List.filter_append_perm (fun q : Paragraph => q.inSection == some s.name)
      (p.paragraphs.filter (·.standsIn (s :: later)))
    rw [here, elsewhere] at parts
    rw [heldBy, again, if_neg Bool.false_ne_true]
    exact parts

end Program

namespace Outline

/-! ## The procedure division -/

section

variable {p : Program}

/-- The node of a section above later ones. -/
def ofSection (p : Program) (s : ProcedureSection) (later : List ProcedureSection) : Outline :=
  node ⟨s.name, .sectionNode, none, s.line, endOr s.line (p.paragraphsIn s.name), p.file, []⟩
    ((p.heldBy s later).map (ofParagraph p.file))

theorem ofSections_cons (s : ProcedureSection) (later : List ProcedureSection) :
    ofSections p (s :: later) = ofSection p s later :: ofSections p later := by
  rw [ofSections, ofSection, Program.heldBy]
  split <;> rfl

theorem flatMap_preorder_ofParagraph (file : Text) (qs : List Paragraph) :
    (qs.map (ofParagraph file)).flatMap preorder = qs.map (ofParagraph file) := by
  refine flatMap_preorder_of_leaves fun x member => ?_
  obtain ⟨q, -, rfl⟩ := List.mem_map.1 member
  rfl

theorem preorder_ofSection (s : ProcedureSection) (later : List ProcedureSection) :
    (ofSection p s later).preorder = ofSection p s later :: (p.heldBy s later).map (ofParagraph p.file) := by
  rw [preorder_eq, ofSection, children, flatMap_preorder_ofParagraph]

theorem filter_ofParagraph (file : Text) (qs : List Paragraph) (kind : NodeKind) :
    (qs.map (ofParagraph file)).filter (·.data.kind == kind) =
      if kind = .paragraph then qs.map (ofParagraph file) else [] := by
  rw [List.filter_map]
  split
  · rename_i same
    rw [same]
    exact congrArg _ (List.filter_eq_self.2 fun q _ => rfl)
  · rename_i other
    rw [List.filter_eq_nil_iff.2 fun q _ => by simpa [ofParagraph, data] using Ne.symm other]
    rfl

/-- The sections are the nodes of that kind among them and all below. -/
theorem sections_ofSections (sections : List ProcedureSection) :
    ((ofSections p sections).flatMap preorder).filter (·.data.kind == .sectionNode) = ofSections p sections := by
  induction sections with
  | nil => rfl
  | cons s later ih =>
    rw [ofSections_cons, List.flatMap_cons, preorder_ofSection, List.filter_append, ih, List.filter_cons_of_pos rfl,
      filter_ofParagraph, if_neg (by decide), List.singleton_append]

/-- Each paragraph that names a section has one node below the sections. -/
theorem paragraphs_ofSections (sections : List ProcedureSection) :
    (((ofSections p sections).flatMap preorder).filter (·.data.kind == .paragraph)).Perm
      ((p.paragraphs.filter (·.standsIn sections)).map (ofParagraph p.file)) := by
  induction sections with
  | nil =>
    have none : p.paragraphs.filter (·.standsIn []) = [] := by
      rw [List.filter_eq_nil_iff]
      intro q _
      simp [Paragraph.standsIn]
    rw [none]
    exact List.Perm.refl []
  | cons s later ih =>
    have held := (p.heldBy_perm s later).map (ofParagraph p.file)
    rw [List.map_append] at held
    rw [ofSections_cons, List.flatMap_cons, preorder_ofSection, List.filter_append,
      List.filter_cons_of_neg (by exact Bool.false_ne_true), filter_ofParagraph, if_pos rfl]
    exact (ih.append_left _).trans held

theorem children_ofDivision_procedure :
    (ofDivision p "PROCEDURE".toList).children =
      ofSections p p.sections ++ p.looseParagraphs.map (ofParagraph p.file) := by
  rw [ofDivision, children, if_neg (by decide), if_pos rfl]

theorem sections_ofDivision :
    ((ofDivision p "PROCEDURE".toList).children.flatMap preorder).filter (·.data.kind == .sectionNode) =
      ofSections p p.sections := by
  rw [children_ofDivision_procedure, List.flatMap_append, List.filter_append, sections_ofSections,
    flatMap_preorder_ofParagraph, filter_ofParagraph, if_neg (by decide), List.append_nil]

/-- Each paragraph has one node below the procedure division. -/
theorem paragraphs_ofDivision :
    (((ofDivision p "PROCEDURE".toList).children.flatMap preorder).filter (·.data.kind == .paragraph)).Perm
      (p.paragraphs.map (ofParagraph p.file)) := by
  rw [children_ofDivision_procedure, List.flatMap_append, List.filter_append, flatMap_preorder_ofParagraph,
    filter_ofParagraph, if_pos rfl, p.looseParagraphs_eq]
  refine ((paragraphs_ofSections p.sections).append_right _).trans ?_
  rw [← List.map_append]
  exact (List.filter_append_perm _ _).map _

theorem lines_ofSections (sections : List ProcedureSection) :
    (ofSections p sections).map (fun x => (x.data.name, x.data.startLine)) =
      sections.map fun s => (s.name, s.line) := by
  induction sections with
  | nil => rfl
  | cons s later ih =>
    rw [ofSections_cons, List.map_cons, List.map_cons, ih]
    rfl

end

/-! ## The node of a program -/

/-- The divisions of that name right below a node. -/
def divisionsNamed (name : Text) (o : Outline) : List Outline := o.children.filter (·.data.name == name)

/-- What stands right below a data division. -/
def dataNodes (o : Outline) : List Outline := (o.divisionsNamed "DATA".toList).flatMap children

/-- All that stands below a procedure division. -/
def procedureNodes (o : Outline) : List Outline :=
  (o.divisionsNamed "PROCEDURE".toList).flatMap fun division => division.children.flatMap preorder

/-- The sections of a procedure division. -/
def sectionNodes (o : Outline) : List Outline := o.procedureNodes.filter (·.data.kind == .sectionNode)

/-- The node shows what the program records, and a division holds nothing that is recorded in another. -/
structure Shows (o : Outline) (p : Program) : Prop where
  file : o.data.kind.isFile = true ∧ o.data.program = some p.id ∧ o.data.path = p.file
  divisions : o.children.map (fun x => (x.data.kind, x.data.name)) = p.divisions.map fun name => (.division, name)
  distinct : p.divisions.Nodup
  dataSections : o.dataNodes.map (fun x => (x.data.kind, x.data.name)) =
    p.dataSections.map fun s => (.sectionNode, s.name)
  belowData : ∀ x ∈ o.dataNodes, x.children = []
  sections : o.sectionNodes.map (fun x => (x.data.name, x.data.startLine)) = p.sections.map fun s => (s.name, s.line)
  paragraphs : ((o.procedureNodes.filter (·.data.kind == .paragraph)).map data).Perm
    (p.paragraphs.map fun q =>
      ⟨q.name, .paragraph, none, q.line, q.endLine, p.file, q.statements.map (·.target)⟩)
  others : ∀ x ∈ o.children, x.data.name ≠ "DATA".toList → x.data.name ≠ "PROCEDURE".toList → x.children = []

/-- What is found below the division of a name is what that division holds, also where it is not listed because it
holds nothing. -/
theorem flatMap_divisionsNamed {α : Type} {p : Program} {name : Text} {f : Outline → List α}
    (distinct : p.divisions.Nodup) (housed : name ∉ p.divisions → f (ofDivision p name) = []) :
    ((ofProgram p).divisionsNamed name).flatMap f = f (ofDivision p name) := by
  have named : (ofProgram p).divisionsNamed name = (p.divisions.filter (· == name)).map (ofDivision p) := by
    rw [divisionsNamed, ofProgram, children, List.filter_map]
    rfl
  rw [named, List.filter_beq, distinct.count]
  split
  · exact List.flatMap_singleton f _
  · rename_i missing
    exact (housed missing).symm

section

variable {p : Program} (housed : p.Housed)

include housed

theorem dataNodes_ofProgram : (ofProgram p).dataNodes = p.dataSections.map (ofDataSection p.file) := by
  have dataChildren : (ofDivision p "DATA".toList).children = p.dataSections.map (ofDataSection p.file) := by
    rw [ofDivision, children, if_pos rfl]
  rw [dataNodes, flatMap_divisionsNamed housed.distinct, dataChildren]
  intro missing
  have none : p.dataSections = [] := by_contra fun some => missing (housed.data some)
  rw [dataChildren, none]
  rfl

theorem procedureNodes_ofProgram :
    (ofProgram p).procedureNodes = (ofDivision p "PROCEDURE".toList).children.flatMap preorder := by
  refine flatMap_divisionsNamed housed.distinct fun missing => ?_
  have noSection : p.sections = [] := by_contra fun some => missing (housed.sections some)
  have noParagraph : p.paragraphs = [] := by_contra fun some => missing (housed.paragraphs some)
  rw [children_ofDivision_procedure, p.looseParagraphs_eq, noSection, noParagraph]
  rfl

theorem sectionNodes_ofProgram : (ofProgram p).sectionNodes = ofSections p p.sections := by
  rw [sectionNodes, procedureNodes_ofProgram housed, sections_ofDivision]

/-- What has its division is shown. -/
theorem shows_ofProgram : (ofProgram p).Shows p := by
  refine ⟨⟨rfl, rfl, rfl⟩, ?_, housed.distinct, ?_, ?_, ?_, ?_, ?_⟩
  · rw [ofProgram, children, List.map_map]
    rfl
  · rw [dataNodes_ofProgram housed, List.map_map]
    rfl
  · rw [dataNodes_ofProgram housed]
    intro x member
    obtain ⟨s, -, rfl⟩ := List.mem_map.1 member
    rfl
  · rw [sectionNodes_ofProgram housed, lines_ofSections]
  · have shown := (paragraphs_ofDivision (p := p)).map data
    rw [List.map_map] at shown
    rw [procedureNodes_ofProgram housed]
    exact shown
  · intro x member notData notProcedure
    obtain ⟨name, -, rfl⟩ := List.mem_map.1 member
    have other : name ≠ "DATA".toList ∧ name ≠ "PROCEDURE".toList := ⟨notData, notProcedure⟩
    rw [ofDivision, children, if_neg other.1, if_neg other.2]

end

/-- **The outline of texts loses nothing and doubles nothing.**  It has one file for each text, and the file's node
shows what is recorded of the text. -/
theorem ofPrograms_shows (root : Path) (sources : List (Path × Text)) :
    let programs := sources.map fun source => Program.ofSource source.1 source.2
    (ofPrograms root programs).files.Perm (programs.map ofProgram) ∧ ∀ p ∈ programs, (ofProgram p).Shows p := by
  intro programs
  refine ⟨files_ofPrograms root programs, fun p member => ?_⟩
  obtain ⟨source, -, rfl⟩ := List.mem_map.1 member
  exact shows_ofProgram (Source.ofSource_housed source.1 source.2)

end Outline

end CobolAtlas
