/-
# CobolAtlas.Proofs.Program.Veiling -- what the procedures of a program show of its events

The names of static CALLs stand in literals.  A statement, a paragraph or an edge is veiled when these names are left
out (`veil`).  A veiled assembly is also settled: it leaves out what the procedures never depend on, that is the name
of the program, the data sections, and the last line seen where no paragraph is open (`settle`).

A step shows in the veiled assembly what the veiled event tells (`step_veil`), but for a data item, which does not
show at all where no paragraph is open (`addDataItem_veil`).  So assemblies that look the same veiled make programs
with the same sections, and with paragraphs and edges that look the same (`finish_veil_congr`).
-/
import CobolAtlas.Proofs.Program.Closing

namespace CobolAtlas

set_option autoImplicit false

/-! ## Records -/

/-- The statement without the name of a static CALL. -/
def Statement.veil (s : Statement) : Statement :=
  if s.kind = .call ∧ s.dynamic = false then { s with target := [] } else s

def Paragraph.veil (p : Paragraph) : Paragraph := { p with statements := p.statements.map Statement.veil }

/-- The edge without the name of a static CALL. -/
def CallEdge.veil (e : CallEdge) : CallEdge := if e.dynamic then e else { e with toProgram := [] }

/-- The event without the name of a static CALL. -/
def Event.veil : Event → Event
  | .statement s => .statement s.veil
  | e => e

theorem Statement.veil_kind (s : Statement) : s.veil.kind = s.kind := by
  unfold veil; split <;> rfl

theorem Statement.veil_line (s : Statement) : s.veil.line = s.line := by
  unfold veil; split <;> rfl

namespace Assembly

/-- The assembly without what its procedures never depend on. -/
def settle (a : Assembly) : Assembly :=
  { a with
    id := []
    declaresId := false
    dataSections := []
    dataSection := none
    lastLine := if a.openParagraph.isSome then a.lastLine else 0 }

/-- What shows of an assembly in its procedures, without the names of static CALLs. -/
def veil (a : Assembly) : Assembly :=
  settle { a with
    closedParagraphs := a.closedParagraphs.map Paragraph.veil
    openParagraph := a.openParagraph.map Paragraph.veil
    calls := a.calls.map CallEdge.veil }

variable {a b : Assembly}

/-! ## Steps -/

theorem closeParagraph_veil (a : Assembly) : a.closeParagraph.veil = a.veil.closeParagraph.settle := by
  cases isOpen : a.openParagraph <;> simp [closeParagraph, veil, settle, isOpen, Paragraph.veil]

theorem enterDivision_veil (a : Assembly) (name : Text) (line : LineNumber) :
    (a.enterDivision name line).veil = (a.veil.enterDivision name line).settle := by
  cases isOpen : a.openParagraph <;>
    simp [enterDivision, closeParagraph, closeSection, Assembly.sections, veil, settle, isOpen, Paragraph.veil]

theorem enterProcedureSection_veil (a : Assembly) (name : Text) (line : LineNumber) :
    (a.enterProcedureSection name line).veil = (a.veil.enterProcedureSection name line).settle := by
  cases isOpen : a.openParagraph <;>
    simp [enterProcedureSection, closeParagraph, closeSection, Assembly.sections, veil, settle, isOpen, Paragraph.veil]

theorem enterParagraph_veil (a : Assembly) (name : Text) (line : LineNumber) :
    (a.enterParagraph name line).veil = (a.veil.enterParagraph name line).settle := by
  cases isOpen : a.openParagraph <;> simp [enterParagraph, closeParagraph, veil, settle, isOpen, Paragraph.veil]

/-- The edge of a CALL shows what the veiled statement tells. -/
theorem edge_veil (file paragraph : Text) {s : Statement} (call : s.kind = .call) :
    (edge file paragraph s).veil = edge file paragraph s.veil := by
  cases dynamic : s.dynamic <;> simp [edge, CallEdge.veil, Statement.veil, call, dynamic]

theorem appendStatement_veil (a : Assembly) (s : Statement) :
    (a.appendStatement s).veil = (a.veil.appendStatement s.veil).settle := by
  cases isOpen : a.openParagraph with
  | none => simp [appendStatement, veil, settle, isOpen]
  | some p =>
    simp only [appendStatement, observe, veil, settle, isOpen, Option.map_some, Statement.veil_kind, Statement.veil_line,
      Option.isSome_some, if_true]
    congr 1
    · simp [Paragraph.veil]
    · split
      · rename_i call
        rw [List.map_append, List.map_singleton, edge_veil a.file p.name call]
        rfl
      · rfl

theorem appendStatement_settle (a : Assembly) (s : Statement) :
    (a.settle.appendStatement s).settle = (a.appendStatement s).settle := by
  cases isOpen : a.openParagraph <;> simp [appendStatement, observe, settle, isOpen]

theorem addStatement_veil (a : Assembly) (s : Statement) :
    (a.addStatement s).veil = (a.veil.addStatement s.veil).settle := by
  have opened : a.veil.openParagraph.isNone = a.openParagraph.isNone := by simp [veil, settle]
  have inProcedure : a.veil.inProcedure = a.inProcedure := rfl
  rw [addStatement, addStatement, opened, inProcedure]
  split
  · rw [appendStatement_veil, enterParagraph_veil, appendStatement_settle, Statement.veil_line]
  · exact appendStatement_veil a s

theorem observe_veil (a : Assembly) (line : LineNumber) : (a.observe line).veil = (a.veil.observe line).settle := by
  cases isOpen : a.openParagraph <;> simp [observe, veil, settle, isOpen]

theorem setProgramId_veil (a : Assembly) (name : Text) : (a.setProgramId name).veil = a.veil := by
  simp only [setProgramId]
  generalize Name.clean name = id
  split <;> rfl

/-- Where no paragraph is open, a data item does not show. -/
theorem addDataItem_veil (isClosed : a.openParagraph = none) (item : DataItem) : (a.addDataItem item).veil = a.veil := by
  unfold addDataItem
  split
  · rfl
  · simp [observe, veil, settle, isClosed]

theorem veil_settle (a : Assembly) : a.veil.settle = a.veil := by
  cases isOpen : a.openParagraph <;> simp [veil, settle, isOpen]

/-- A step shows what the veiled event tells, if it is not that of a data item. -/
theorem step_veil (a : Assembly) {e : Event} (noItem : ∀ item, e ≠ .dataItem item) :
    (a.step e).veil = (a.veil.step e.veil).settle := by
  have division : a.veil.division = a.division := rfl
  cases e with
  | programId name =>
    have same : (a.veil.setProgramId name).settle = a.veil.settle := by
      simp only [setProgramId]
      generalize Name.clean name = id
      split <;> rfl
    exact (setProgramId_veil a name).trans (same.trans (veil_settle a)).symm
  | division name line => exact enterDivision_veil a name line
  | sectionHeader name line =>
    simp only [step, enterSection, Event.veil, division]
    split
    · exact (veil_settle a).symm
    · split
      · exact enterProcedureSection_veil a name line
      · exact (veil_settle a).symm
  | dataSection name => exact (veil_settle a).symm
  | procedureSection name line => exact enterProcedureSection_veil a name line
  | dataItem item => exact absurd rfl (noItem item)
  | paragraph name line => exact enterParagraph_veil a name line
  | statement s => exact addStatement_veil a s
  | observe line => exact observe_veil a line
  | syntaxErrors count => exact congrArg (fun b => { b with syntaxErrors := some count }) (veil_settle a).symm

/-- Veiled events that look the same lead to assemblies that look the same. -/
theorem run_veil_congr {events events' : List Event} (same : a.veil = b.veil)
    (told : events.map Event.veil = events'.map Event.veil) (noItem : ∀ item, .dataItem item ∉ events)
    (noItem' : ∀ item, .dataItem item ∉ events') : (a.run events).veil = (b.run events').veil := by
  induction events generalizing a b events' with
  | nil =>
    obtain rfl := List.map_eq_nil_iff.1 told.symm
    exact same
  | cons e events ih =>
    obtain ⟨e', rest, rfl, here, after⟩ := List.map_eq_cons_iff.1 told.symm
    have step : (a.step e).veil = (b.step e').veil := by
      rw [step_veil a fun item is => noItem item (is ▸ List.mem_cons_self),
        step_veil b fun item is => noItem' item (is ▸ List.mem_cons_self), same, here]
    rw [run_cons, run_cons]
    exact ih step after.symm (fun item member => noItem item (List.mem_cons_of_mem e member))
      fun item member => noItem' item (List.mem_cons_of_mem e' member)

/-! ## The finished program -/

theorem finish_veil_congr (same : a.veil = b.veil) :
    a.finish.divisions = b.finish.divisions ∧ a.finish.sections = b.finish.sections ∧
      a.finish.paragraphs.map Paragraph.veil = b.finish.paragraphs.map Paragraph.veil ∧
        a.finish.calls.map CallEdge.veil = b.finish.calls.map CallEdge.veil := by
  have paragraphs (a : Assembly) :
      a.finish.paragraphs.map Paragraph.veil = a.veil.closeParagraph.settle.closedParagraphs := by
    rw [← closeParagraph_veil]
    rfl
  have divisions : a.veil.divisions = b.veil.divisions := by rw [same]
  have sections : a.veil.sections = b.veil.sections := by rw [same]
  have calls : a.veil.calls = b.veil.calls := by rw [same]
  exact ⟨divisions, sections, by rw [paragraphs, paragraphs, same], calls⟩

end Assembly

end CobolAtlas
