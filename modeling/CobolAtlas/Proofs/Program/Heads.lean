/-
# CobolAtlas.Proofs.Program.Heads -- procedure sections by their headers

`Assembly.heads` are the names of the procedure sections so far, with the lines of their headers.  An event adds to them
what it opens in the division that is current (`heads_step`), and nothing else changes them: paragraphs and statements
go to a section whose header stands.
-/
import CobolAtlas.Proofs.Program.Closing

namespace CobolAtlas.Assembly

set_option autoImplicit false

/-- The names of the sections so far and the lines of their headers. -/
def heads (a : Assembly) : List (Text × LineNumber) := a.sections.map fun s => (s.name, s.line)

/-- The section that the event opens in the procedure division. -/
def headOpened (division : Option Text) : Event → List (Text × LineNumber)
  | .sectionHeader name line => if division = some "PROCEDURE".toList then [(Name.ofSection name, line)] else []
  | .procedureSection name line => [(Name.ofSection name, line)]
  | _ => []

theorem headOpened_of_ignores {a : Assembly} {e : Event} (without : a.ignores e = true) :
    headOpened a.division e = [] := by
  cases e with
  | sectionHeader name line => exact if_neg (ignores_sectionHeader_iff.1 without).2
  | procedureSection name line => cases without
  | _ => rfl

theorem headOpened_of_entersDataSection {division : Option Text} {name : Text} {e : Event}
    (enters : e.EntersDataSection division name) : headOpened division e = [] := by
  cases enters with
  | dataSection => rfl
  | sectionHeader line inData => exact if_neg (by rw [inData]; decide)

theorem headOpened_of_opensSection {division : Option Text} {name : Text} {line : LineNumber} {e : Event}
    (opens : e.OpensSection division name line) : headOpened division e = [(Name.ofSection name, line)] := by
  cases opens with
  | procedureSection => rfl
  | sectionHeader inProcedure => exact if_pos inProcedure

theorem heads_closed (a : Assembly) : a.closed.heads = a.heads := by
  rw [heads, closed, closeSection_sections, closeParagraph_sections, heads]

theorem heads_enterProcedureSection (a : Assembly) (name : Text) (line : LineNumber) :
    (a.enterProcedureSection name line).heads = a.heads ++ [(Name.ofSection name, line)] := by
  rw [← heads_closed a]
  have isClosed := closed_openSection a
  have opened : a.enterProcedureSection name line =
      { a.closed with openSection := some ⟨Name.ofSection name, line, []⟩, lastLine := line } := rfl
  rw [opened]
  generalize a.closed = b at isClosed ⊢
  simp only [heads, sections, isClosed, Option.toList_none, Option.toList_some, List.append_nil, List.map_append,
    List.map_cons, List.map_nil]

/-- A paragraph is added to the list of its section and changes no header. -/
theorem heads_enterParagraph (a : Assembly) (name : Text) (line : LineNumber) :
    (a.enterParagraph name line).heads = a.heads := by
  have closing : a.closeParagraph.heads = a.heads := congrArg (List.map _) (closeParagraph_sections a)
  rw [← closing, enterParagraph]
  generalize a.closeParagraph = b
  simp only [heads, sections, List.map_append]
  cases b.openSection <;> rfl

theorem heads_appendStatement (a : Assembly) (s : Statement) : (a.appendStatement s).heads = a.heads := by
  unfold appendStatement
  split <;> rfl

/-- Only a section header of the procedure division adds a section. -/
theorem heads_step (a : Assembly) (e : Event) : (a.step e).heads = a.heads ++ headOpened a.division e := by
  have effect := step_effect a e
  generalize a.step e = b at effect ⊢
  cases effect with
  | ignored without => rw [headOpened_of_ignores without, List.append_nil]
  | named | counted | observed | item => exact (List.append_nil _).symm
  | division name line => exact (heads_closed a).trans (List.append_nil _).symm
  | dataSection name enters =>
    rw [headOpened_of_entersDataSection enters, List.append_nil]
    rfl
  | procedureSection name line opens =>
    rw [headOpened_of_opensSection opens, heads_enterProcedureSection]
  | paragraph name line => exact (heads_enterParagraph a name line).trans (List.append_nil _).symm
  | entry s =>
    have opened := heads_enterParagraph a Program.entryParagraph s.line
    exact ((heads_appendStatement _ s).trans opened).trans (List.append_nil _).symm
  | statement s => exact (heads_appendStatement a s).trans (List.append_nil _).symm

/-- Events among which there is no section header leave the sections as they are. -/
theorem heads_run_of_none {a : Assembly} {events : List Event}
    (none : ∀ e ∈ events, ∀ division, headOpened division e = []) : (a.run events).heads = a.heads := by
  induction events generalizing a with
  | nil => rfl
  | cons e events ih =>
    obtain ⟨here, later⟩ := List.forall_mem_cons.1 none
    rw [run_cons, ih later, heads_step, here, List.append_nil]

end CobolAtlas.Assembly
