/-
# CobolAtlas.Proofs.Program.Agreement -- what a program lists twice agrees

A program tells of two things in two places.  A CALL is a statement of its paragraph and an edge of the
file; the section of a paragraph is named by the paragraph, and the section lists the paragraph's name.
An assembly fills the two places by separate writes.  `Assembly.Agrees` says that they agree; every event
keeps it (`step_agrees`), whatever the order of events, because a paragraph is only ever listed in the
section that is open when the paragraph opens, and statements reach only the paragraph that opened last.

The main statements are `calls_eq_statements_called` and `sections_eq_paragraphs_sectioned`.
-/
import CobolAtlas.Proofs.Program.Effect

namespace CobolAtlas

set_option autoImplicit false

/-- The edges of the CALL statements of a paragraph in `file`, none of them resolved. -/
def Paragraph.callEdges (file : Text) (p : Paragraph) : List CallEdge :=
  (p.statements.filter fun s => s.kind = .call).map fun s =>
    { fromFile := file
      fromParagraph := p.name
      line := s.line
      toProgram := s.target
      toFile := none
      dynamic := s.dynamic }

/-- Each paragraph that the sections list, with the name of its section. -/
def listedPairs (sections : List ProcedureSection) : List (Text × Text) :=
  sections.flatMap fun s => s.paragraphs.map fun name => (s.name, name)

/-- Each paragraph that names its section, with that name. -/
def namedPairs (paragraphs : List Paragraph) : List (Text × Text) :=
  paragraphs.filterMap fun p => p.inSection.map fun name => (name, p.name)

@[simp] theorem listedPairs_append (first second : List ProcedureSection) :
    listedPairs (first ++ second) = listedPairs first ++ listedPairs second := by
  simp [listedPairs]

@[simp] theorem namedPairs_append (first second : List Paragraph) :
    namedPairs (first ++ second) = namedPairs first ++ namedPairs second := by
  simp [namedPairs]

/-- The pair of a paragraph depends on its name and its section alone. -/
@[simp] theorem namedPairs_singleton (p : Paragraph) :
    namedPairs [p] = (p.inSection.map fun name => (name, p.name)).toList := by
  cases inSection : p.inSection <;> simp [namedPairs, inSection]

namespace Assembly

/-- All paragraphs so far, the open one last and not yet ended. -/
def paragraphs (a : Assembly) : List Paragraph := a.closedParagraphs ++ a.openParagraph.toList

/-- The edges are those of the CALL statements, and the sections list what the paragraphs name. -/
structure Agrees (a : Assembly) : Prop where
  calls : a.calls = a.paragraphs.flatMap (Paragraph.callEdges a.file)
  pairs : listedPairs a.sections = namedPairs a.paragraphs

theorem start_agrees (path : Path) (backend : Text) : (start path backend).Agrees :=
  ⟨rfl, rfl⟩

/-! ## Closing -/

theorem closeParagraph_agrees {a : Assembly} (agrees : a.Agrees) : a.closeParagraph.Agrees := by
  unfold closeParagraph
  split
  · exact agrees
  · rename_i p isOpen
    -- only the last line of the paragraph changes, and neither list shows it
    have calls := agrees.calls
    have pairs := agrees.pairs
    simp only [paragraphs, isOpen] at calls pairs
    exact ⟨calls.trans (by simp [paragraphs, Paragraph.callEdges]),
      pairs.trans (by simp [paragraphs])⟩

@[simp] theorem closeSection_sections (a : Assembly) : a.closeSection.sections = a.sections := by
  simp [closeSection, sections]

theorem closeSection_agrees {a : Assembly} (agrees : a.Agrees) : a.closeSection.Agrees :=
  ⟨agrees.calls, by rw [closeSection_sections]; exact agrees.pairs⟩

@[simp] theorem closeParagraph_openParagraph (a : Assembly) : a.closeParagraph.openParagraph = none := by
  unfold closeParagraph
  split
  · assumption
  · rfl

/-! ## Opening -/

/-- A section that opens lists nothing yet. -/
theorem openSection_agrees {a : Assembly} (agrees : a.Agrees) (name : Text) (line last : LineNumber)
    (isClosed : a.openSection = none) :
    { a with openSection := some ⟨name, line, []⟩, lastLine := last }.Agrees := by
  refine ⟨agrees.calls, ?_⟩
  have pairs := agrees.pairs
  simp only [sections, isClosed, Option.toList_none, List.append_nil] at pairs
  have nothing : listedPairs [⟨name, line, []⟩] = [] := rfl
  simp only [sections, Option.toList_some, listedPairs_append, nothing, List.append_nil]
  exact pairs

theorem enterProcedureSection_agrees {a : Assembly} (agrees : a.Agrees) (name : Text)
    (line : LineNumber) : (a.enterProcedureSection name line).Agrees :=
  openSection_agrees (closeSection_agrees (closeParagraph_agrees agrees)) _ _ _ rfl

/-- The section that is open lists the new paragraph last, and the paragraph is the last one. -/
theorem enterParagraph_agrees {a : Assembly} (agrees : a.Agrees) (name : Text) (line : LineNumber) :
    (a.enterParagraph name line).Agrees := by
  have closed := closeParagraph_agrees agrees
  have isClosed := closeParagraph_openParagraph a
  have calls := closed.calls
  have pairs := closed.pairs
  unfold enterParagraph
  generalize a.closeParagraph = b at calls pairs isClosed ⊢
  simp only [paragraphs, isClosed, Option.toList_none, List.append_nil] at calls pairs
  refine ⟨?_, ?_⟩
  · simpa [paragraphs, Paragraph.callEdges] using calls
  · cases section_ : b.openSection with
    | none =>
        simp only [sections, section_] at pairs ⊢
        simpa [paragraphs] using pairs
    | some s =>
        simp only [sections, section_, Option.toList_some] at pairs ⊢
        have listed : listedPairs [{ s with paragraphs := s.paragraphs ++ [Name.clean name] }] =
            listedPairs [s] ++ [(s.name, Name.clean name)] := by simp [listedPairs]
        simp only [Option.map_some, Option.toList_some, listedPairs_append, listed, paragraphs]
        rw [← List.append_assoc, ← listedPairs_append, pairs]
        simp

/-! ## Statements -/

/-- A CALL becomes the last statement of the last paragraph and the last edge. -/
theorem appendStatement_agrees {a : Assembly} (agrees : a.Agrees) (s : Statement) :
    (a.appendStatement s).Agrees := by
  unfold appendStatement
  split
  · exact agrees
  · rename_i p isOpen
    have calls := agrees.calls
    have pairs := agrees.pairs
    simp only [paragraphs, isOpen, Option.toList_some] at calls pairs
    refine ⟨?_, ?_⟩
    · by_cases isCall : s.kind = .call
      · simp [observe, paragraphs, Paragraph.callEdges, isCall, calls, edge]
      · simp [observe, paragraphs, Paragraph.callEdges, isCall, calls]
    · simpa [observe, sections, paragraphs] using pairs

/-! ## Runs -/

/-- Every event keeps the agreement. -/
theorem step_agrees {a : Assembly} (agrees : a.Agrees) (e : Event) : (a.step e).Agrees := by
  have effect := step_effect a e
  generalize a.step e = b at effect ⊢
  cases effect with
  | ignored | named | counted | observed | dataSection | item => exact ⟨agrees.calls, agrees.pairs⟩
  | division name line =>
      have closed := closeSection_agrees (closeParagraph_agrees agrees)
      exact ⟨closed.calls, closed.pairs⟩
  | procedureSection name line => exact enterProcedureSection_agrees agrees name line
  | paragraph name line => exact enterParagraph_agrees agrees name line
  | entry s => exact appendStatement_agrees (enterParagraph_agrees agrees _ _) s
  | statement s => exact appendStatement_agrees agrees s

theorem run_agrees {a : Assembly} (agrees : a.Agrees) (events : List Event) :
    (a.run events).Agrees := by
  induction events generalizing a with
  | nil => exact agrees
  | cons e events ih => exact ih (step_agrees agrees e)

/-! ## The finished program -/

@[simp] theorem closeParagraph_file (a : Assembly) : a.closeParagraph.file = a.file := by
  unfold closeParagraph; split <;> rfl

@[simp] theorem closeParagraph_calls (a : Assembly) : a.closeParagraph.calls = a.calls := by
  unfold closeParagraph; split <;> rfl

@[simp] theorem closeParagraph_sections (a : Assembly) : a.closeParagraph.sections = a.sections := by
  unfold closeParagraph; split <;> rfl

/-- The paragraphs of the program are those of the assembly after its last one is closed. -/
theorem finish_paragraphs (a : Assembly) : a.finish.paragraphs = a.closeParagraph.paragraphs := by
  simp [finish, paragraphs]

theorem finish_calls {a : Assembly} (agrees : a.Agrees) :
    a.finish.calls = a.finish.paragraphs.flatMap (Paragraph.callEdges a.finish.file) := by
  have calls := (closeParagraph_agrees agrees).calls
  rw [closeParagraph_calls, closeParagraph_file, ← finish_paragraphs] at calls
  exact calls

theorem finish_pairs {a : Assembly} (agrees : a.Agrees) :
    listedPairs a.finish.sections = namedPairs a.finish.paragraphs := by
  have pairs := (closeParagraph_agrees agrees).pairs
  rw [closeParagraph_sections, ← finish_paragraphs] at pairs
  exact pairs

end Assembly

namespace Program

/-- **Edges and CALL statements never drift apart.**  After any events, the edges of a program are those
of the CALL statements of its paragraphs, one for each and in the same order. -/
theorem calls_eq_statements_called (path : Path) (backend : Text) (events : List Event) :
    (ofEvents path backend events).calls =
      (ofEvents path backend events).paragraphs.flatMap
        (Paragraph.callEdges (ofEvents path backend events).file) :=
  Assembly.finish_calls (Assembly.run_agrees (Assembly.start_agrees path backend) events)

/-- **Sections list exactly the paragraphs that name them.**  After any events, reading section and
paragraph names off the sections gives the same list as reading them off the paragraphs. -/
theorem sections_eq_paragraphs_sectioned (path : Path) (backend : Text) (events : List Event) :
    listedPairs (ofEvents path backend events).sections =
      namedPairs (ofEvents path backend events).paragraphs :=
  Assembly.finish_pairs (Assembly.run_agrees (Assembly.start_agrees path backend) events)

end Program

end CobolAtlas
