/-
# CobolAtlas.Proofs.Program.Closing -- what a header leaves behind

A header first closes what is open: a paragraph header the open paragraph (`closeParagraph`), the header
of a procedure section the paragraph and the section (`closed`), and so does the end of the file.  So what
was written before matters to them only in its closed form (`enterParagraph_closeParagraph`,
`enterProcedureSection_closed`, `finish_closed`).  The current division changes with a division header
and with nothing else (`step_division`).
-/
import CobolAtlas.Proofs.Program.Agreement

namespace CobolAtlas.Assembly

set_option autoImplicit false

variable {a : Assembly}

/-! ## Closing -/

theorem closeParagraph_of_none (isClosed : a.openParagraph = none) : a.closeParagraph = a := by
  rw [closeParagraph, isClosed]

theorem closeParagraph_of_some {p : Paragraph} (isOpen : a.openParagraph = some p) :
    a.closeParagraph =
      { a with
        closedParagraphs := a.closedParagraphs ++ [{ p with endLine := max p.endLine a.lastLine }]
        openParagraph := none } := by
  rw [closeParagraph, isOpen]

theorem closeParagraph_closeParagraph (a : Assembly) : a.closeParagraph.closeParagraph = a.closeParagraph :=
  closeParagraph_of_none (closeParagraph_openParagraph a)

theorem closeSection_of_none (isClosed : a.openSection = none) : a.closeSection = a := by
  obtain ⟨⟩ := a
  simp only at isClosed
  simp only [closeSection, sections, isClosed, Option.toList_none, List.append_nil]

/-- Neither a paragraph nor a procedure section is open any more. -/
def closed (a : Assembly) : Assembly := a.closeParagraph.closeSection

theorem closed_openParagraph (a : Assembly) : a.closed.openParagraph = none := closeParagraph_openParagraph a

theorem closed_openSection (a : Assembly) : a.closed.openSection = none := rfl

theorem closed_of_none (noParagraph : a.openParagraph = none) (noSection : a.openSection = none) :
    a.closed = a := by
  rw [closed, closeParagraph_of_none noParagraph, closeSection_of_none noSection]

theorem closed_closed (a : Assembly) : a.closed.closed = a.closed :=
  closed_of_none (closed_openParagraph a) (closed_openSection a)

theorem enterParagraph_closeParagraph (a : Assembly) (name : Text) (line : LineNumber) :
    a.closeParagraph.enterParagraph name line = a.enterParagraph name line := by
  rw [enterParagraph, closeParagraph_closeParagraph, enterParagraph]

theorem enterProcedureSection_closed (a : Assembly) (name : Text) (line : LineNumber) :
    a.closed.enterProcedureSection name line = a.enterProcedureSection name line := by
  have again : a.closed.closeParagraph.closeSection = a.closeParagraph.closeSection := closed_closed a
  simp only [enterProcedureSection, again]

theorem finish_closed (a : Assembly) : a.closed.finish = a.finish := by
  have paragraphs : a.closed.closeParagraph.closedParagraphs = a.closeParagraph.closedParagraphs := by
    rw [closeParagraph_of_none (closed_openParagraph a)]
    rfl
  have sections : a.closed.sections = a.sections := by
    rw [closed, closeSection_sections, closeParagraph_sections]
  have others : a.closeParagraph = { a with
      closedParagraphs := a.closeParagraph.closedParagraphs, openParagraph := none } := by
    cases isOpen : a.openParagraph with
    | none =>
      rw [closeParagraph_of_none isOpen]
      obtain ⟨⟩ := a
      simp only at isOpen
      rw [isOpen]
    | some p => rw [closeParagraph_of_some isOpen]
  rw [finish, paragraphs, sections, closed, others]
  rfl

theorem finish_of_none (noParagraph : a.openParagraph = none) (noSection : a.openSection = none) :
    a.finish =
      { file := a.file
        id := a.id
        backend := a.backend
        divisions := a.divisions
        dataSections := a.dataSections
        sections := a.closedSections
        paragraphs := a.closedParagraphs
        syntaxErrors := a.syntaxErrors
        declaresId := a.declaresId
        calls := a.calls } := by
  have sections : a.sections = a.closedSections := by
    rw [Assembly.sections, noSection, Option.toList_none, List.append_nil]
  rw [finish, sections, closeParagraph_of_none noParagraph]

/-- A statement opens no paragraph and closes none, once it has its paragraph. -/
theorem appendStatement_isSome (a : Assembly) (s : Statement) :
    (a.appendStatement s).openParagraph.isSome = a.openParagraph.isSome := by
  unfold appendStatement
  split
  · rfl
  · rename_i opened
    rw [opened]
    rfl

/-! ## The current division -/

theorem closeParagraph_division (a : Assembly) : a.closeParagraph.division = a.division := by
  unfold closeParagraph; split <;> rfl

theorem enterParagraph_division (a : Assembly) (name : Text) (line : LineNumber) :
    (a.enterParagraph name line).division = a.division := closeParagraph_division a

theorem appendStatement_division (a : Assembly) (s : Statement) : (a.appendStatement s).division = a.division := by
  unfold appendStatement; split <;> rfl

/-- Only a division header changes the division. -/
theorem step_division (a : Assembly) (e : Event) :
    (a.step e).division =
      match e with
      | .division name _ => some (Name.ofDivision name)
      | _ => a.division := by
  have effect := step_effect a e
  generalize a.step e = b at effect ⊢
  cases effect with
  | ignored without =>
    cases e with
    | division name line => cases without
    | _ => rfl
  | named | counted | observed | division | item => rfl
  | dataSection name enters => cases enters <;> rfl
  | procedureSection name line opens => cases opens <;> exact closeParagraph_division a
  | paragraph name line => exact enterParagraph_division a name line
  | entry s => exact (appendStatement_division _ s).trans (enterParagraph_division a _ _)
  | statement s => exact appendStatement_division a s

end CobolAtlas.Assembly
