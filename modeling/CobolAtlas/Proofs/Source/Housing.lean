/-
# CobolAtlas.Proofs.Source.Housing -- what is recorded has its division

A division is listed before anything is recorded in it: data sections under a data division, procedure sections and
paragraphs under a procedure division.  `Program.Housed` says so of a program and `Assembly.Housed` of an assembly,
whose current division is listed too.

An event that belongs to the current division keeps it (`step_housed`): entries are made for the current division, and
divisions are added and never removed.  The events of a code line do (`advance_housed`), for a line is read as the
current division asks.
-/
import CobolAtlas.Proofs.Source.Division
import CobolAtlas.Proofs.Source.Extents

namespace CobolAtlas

set_option autoImplicit false

/-- What the program records stands in a division that it lists, and it lists a division once. -/
structure Program.Housed (p : Program) : Prop where
  distinct : p.divisions.Nodup
  data : p.dataSections ≠ [] → "DATA".toList ∈ p.divisions
  sections : p.sections ≠ [] → "PROCEDURE".toList ∈ p.divisions
  paragraphs : p.paragraphs ≠ [] → "PROCEDURE".toList ∈ p.divisions

/-- The event comes in the division that it is about. -/
def Event.BelongsTo (division : Option Text) : Event → Prop
  | .dataSection _ => division = some "DATA".toList
  | .procedureSection _ _ | .paragraph _ _ => division = some "PROCEDURE".toList
  | _ => True

theorem Event.EntersDataSection.inData {division : Option Text} {name : Text} {e : Event}
    (enters : e.EntersDataSection division name) (belongs : e.BelongsTo division) :
    division = some "DATA".toList := by
  cases enters with
  | dataSection => exact belongs
  | sectionHeader line inData => exact inData

theorem Event.OpensSection.inProcedure {division : Option Text} {name : Text} {line : LineNumber} {e : Event}
    (opens : e.OpensSection division name line) (belongs : e.BelongsTo division) :
    division = some "PROCEDURE".toList := by
  cases opens with
  | procedureSection => exact belongs
  | sectionHeader inProcedure => exact inProcedure

namespace Assembly

/-- What the assembly has recorded stands in a division that it lists, and so does what comes next. -/
structure Housed (a : Assembly) : Prop where
  distinct : a.divisions.Nodup
  current : ∀ name, a.division = some name → name ∈ a.divisions
  data : a.dataSections ≠ [] → "DATA".toList ∈ a.divisions
  sections : a.sections ≠ [] → "PROCEDURE".toList ∈ a.divisions
  paragraphs : a.paragraphs ≠ [] → "PROCEDURE".toList ∈ a.divisions

theorem start_housed (path : Path) (backend : Text) : (start path backend).Housed where
  distinct := List.nodup_nil
  current := fun _ isCurrent => by cases isCurrent
  data := fun some => absurd rfl some
  sections := fun some => absurd rfl some
  paragraphs := fun some => absurd rfl some

variable {a : Assembly}

theorem closeParagraph_housed (housed : a.Housed) : a.closeParagraph.Housed := by
  cases isOpen : a.openParagraph with
  | none =>
    rw [closeParagraph_of_none isOpen]
    exact housed
  | some p =>
    rw [closeParagraph_of_some isOpen]
    refine ⟨housed.distinct, housed.current, housed.data, housed.sections, fun _ => housed.paragraphs ?_⟩
    rw [paragraphs, isOpen]
    exact List.append_ne_nil_of_right_ne_nil _ (List.cons_ne_nil _ _)

theorem closed_housed (housed : a.Housed) : a.closed.Housed := by
  have closing := closeParagraph_housed housed
  have sections : a.closed.sections = a.closeParagraph.sections := closeSection_sections _
  exact ⟨closing.distinct, closing.current, closing.data, sections ▸ closing.sections, closing.paragraphs⟩

theorem enterDivision_housed (housed : a.Housed) (name : Text) (line : LineNumber) :
    (a.enterDivision name line).Housed := by
  have closed := closed_housed housed
  have kept : ∀ d ∈ a.closed.divisions, d ∈ (a.enterDivision name line).divisions := by
    intro d member
    show d ∈ if Name.ofDivision name ∈ a.closed.divisions then a.closed.divisions
      else a.closed.divisions ++ [Name.ofDivision name]
    split
    · exact member
    · exact List.mem_append_left _ member
  refine ⟨?_, ?_, fun some => kept _ (closed.data some), fun some => kept _ (closed.sections some),
    fun some => kept _ (closed.paragraphs some)⟩
  · show (if Name.ofDivision name ∈ a.closed.divisions then a.closed.divisions
      else a.closed.divisions ++ [Name.ofDivision name]).Nodup
    split
    · exact closed.distinct
    · rename_i new
      rw [← List.concat_eq_append]
      exact List.Nodup.concat new closed.distinct
  · intro d isCurrent
    obtain rfl := Option.some.inj isCurrent
    show Name.ofDivision name ∈ if Name.ofDivision name ∈ a.closed.divisions then a.closed.divisions
      else a.closed.divisions ++ [Name.ofDivision name]
    split
    · assumption
    · exact List.mem_append_right _ (List.mem_singleton_self _)

theorem enterDataSection_housed (housed : a.Housed) (inData : a.division = some "DATA".toList) (name : Text) :
    (a.enterDataSection name).Housed :=
  ⟨housed.distinct, housed.current, fun _ => housed.current _ inData, housed.sections, housed.paragraphs⟩

theorem enterProcedureSection_housed (housed : a.Housed) (inProcedure : a.division = some "PROCEDURE".toList)
    (name : Text) (line : LineNumber) : (a.enterProcedureSection name line).Housed := by
  have closed := closed_housed housed
  have listed := closed.current _ ((closeParagraph_division a).trans inProcedure)
  exact ⟨closed.distinct, closed.current, closed.data, fun _ => listed, fun _ => listed⟩

theorem enterParagraph_housed (housed : a.Housed) (inProcedure : a.division = some "PROCEDURE".toList) (name : Text)
    (line : LineNumber) : (a.enterParagraph name line).Housed := by
  have closed := closeParagraph_housed housed
  have listed := closed.current _ ((closeParagraph_division a).trans inProcedure)
  exact ⟨closed.distinct, closed.current, closed.data, fun _ => listed, fun _ => listed⟩

theorem appendStatement_housed (housed : a.Housed) (s : Statement) : (a.appendStatement s).Housed := by
  unfold appendStatement
  split
  · exact housed
  · rename_i p isOpen
    refine ⟨housed.distinct, housed.current, housed.data, housed.sections, fun _ => housed.paragraphs ?_⟩
    rw [paragraphs, isOpen]
    exact List.append_ne_nil_of_right_ne_nil _ (List.cons_ne_nil _ _)

/-- An event in the division that it is about leaves everything in its division. -/
theorem step_housed (housed : a.Housed) {e : Event} (belongs : e.BelongsTo a.division) : (a.step e).Housed := by
  have effect := step_effect a e
  generalize a.step e = b at effect ⊢
  cases effect with
  | ignored | named | counted | observed =>
    exact ⟨housed.distinct, housed.current, housed.data, housed.sections, housed.paragraphs⟩
  | division name line => exact enterDivision_housed housed name line
  | dataSection name enters => exact enterDataSection_housed housed (enters.inData belongs) name
  | procedureSection name line opens => exact enterProcedureSection_housed housed (opens.inProcedure belongs) name line
  | item item current =>
    refine ⟨housed.distinct, housed.current, fun some => housed.data fun none => some ?_, housed.sections,
      housed.paragraphs⟩
    simp only [fileItem, observe, none, List.map_nil]
  | paragraph name line => exact enterParagraph_housed housed belongs name line
  | entry s noneOpen inProcedure => exact appendStatement_housed (enterParagraph_housed housed inProcedure _ _) s
  | statement s => exact appendStatement_housed housed s

/-- Events of one division, none of which enters another. -/
theorem run_housed (housed : a.Housed) {events : List Event} (belong : ∀ e ∈ events, e.BelongsTo a.division)
    (stays : ∀ name line, Event.division name line ∉ events) : (a.run events).Housed := by
  induction events generalizing a with
  | nil => exact housed
  | cons e events ih =>
    obtain ⟨first, others⟩ := List.forall_mem_cons.1 belong
    have other : ∀ name line, Event.division name line ∉ [e] := fun name line member =>
      stays name line (List.mem_cons.2 (.inl (List.mem_singleton.1 member)))
    have same : (a.run [e]).division = a.division := (run_divisions other).2
    exact ih (step_housed housed first) (same ▸ others) fun name line member =>
      stays name line (List.mem_cons_of_mem e member)

theorem finish_housed (housed : a.Housed) : a.finish.Housed := by
  have closing := closeParagraph_housed housed
  have paragraphs : a.finish.paragraphs = a.closeParagraph.paragraphs := finish_paragraphs a
  have divisions : a.closeParagraph.divisions = a.finish.divisions := by
    rw [closeParagraph]
    split <;> rfl
  refine ⟨housed.distinct, housed.data, housed.sections, fun some => ?_⟩
  rw [paragraphs] at some
  exact divisions ▸ closing.paragraphs some

end Assembly

namespace Source

open Assembly

/-- A code line is read as the current division asks. -/
theorem advance_housed {scan : Scan} (housed : scan.assembly.Housed) (c : LineNumber × Text) :
    (scan.advance c).assembly.Housed := by
  obtain ⟨events, report, advanced⟩ := scan.exists_report c
  rw [advanced]
  cases report with
  | header h => exact step_housed housed (by cases h <;> trivial)
  | item item => exact step_housed (e := .dataItem item) housed trivial
  | paragraph name noHeader inProcedure => exact step_housed (e := .paragraph name c.1) housed inProcedure
  | statements =>
    refine run_housed housed (fun e member => ?_) fun name line => by simp
    rcases mem_statementEvents_iff.1 member with ⟨s, -, rfl⟩ | rfl <;> trivial
  | silent => exact housed

/-- **What is recorded of a text has its division.** -/
theorem ofSource_housed (path : Path) (text : Text) : (Program.ofSource path text).Housed := by
  have start : (Scan.mk (start path backendName) true).assembly.Housed := start_housed path backendName
  exact finish_housed (foldl_advance_keeps (fun _ c housed => advance_housed housed c) (codeLines text) start)

end Source

end CobolAtlas
