/-
# CobolAtlas.Proofs.Source.Report -- what a code line reports

A code line reports the header that it is.  What is no header reports what its division asks for: in the data division
the item that it describes, in the procedure division the paragraph that it opens, or else its statements and that it
was seen.  Anywhere else it reports nothing.  `Report` lists these with the conditions under which they happen, and the
events of a line are exactly that (`report_iff`).  So what a line keeps is shown by cases over `Report`, and no such
proof reads the recognisers one by one.
-/
import CobolAtlas.Source.Scan

namespace CobolAtlas.Source

set_option autoImplicit false

open Text

variable {division : Option Text} {sentenceStart : Bool} {line : LineNumber} {code : Text} {events : List Event}

/-- The events that a code line can report, and when it does. -/
inductive Report (division : Option Text) (sentenceStart : Bool) (line : LineNumber) (code : Text) : List Event → Prop
  | header (h : Header) (found : header? code = some h) : Report division sentenceStart line code [h.event line]
  | item (item : DataItem) (noHeader : header? code = none) (inData : division = some "DATA".toList)
      (found : dataItem? line code = some item) : Report division sentenceStart line code [.dataItem item]
  | paragraph (name : Text) (noHeader : header? code = none) (inProcedure : division = some "PROCEDURE".toList)
      (opened : paragraphHeader? sentenceStart code = some name) :
      Report division sentenceStart line code [.paragraph name line]
  | statements (noHeader : header? code = none) (inProcedure : division = some "PROCEDURE".toList)
      (unopened : paragraphHeader? sentenceStart code = none) :
      Report division sentenceStart line code ((statements line code).map .statement ++ [.observe line])
  | silent (noHeader : header? code = none) (noItem : division = some "DATA".toList → dataItem? line code = none)
      (elsewhere : division ≠ some "PROCEDURE".toList) : Report division sentenceStart line code []

theorem report_lineEvents (division : Option Text) (sentenceStart : Bool) (line : LineNumber) (code : Text) :
    Report division sentenceStart line code (lineEvents division sentenceStart line code) := by
  cases found : header? code with
  | some h =>
    simp only [lineEvents, found]
    exact .header h found
  | none =>
    simp only [lineEvents, found]
    split
    · rename_i inData
      cases described : dataItem? line code with
      | some item => exact .item item found inData described
      | none => exact .silent found (fun _ => described) (by rw [inData]; decide)
    · rename_i notData
      split
      · rename_i inProcedure
        rw [procedureEvents]
        cases opened : paragraphHeader? sentenceStart code with
        | some name => exact .paragraph name found inProcedure opened
        | none => exact .statements found inProcedure opened
      · rename_i elsewhere
        exact .silent found (fun inData => absurd inData notData) elsewhere

/-- The conditions leave one report. -/
theorem Report.eq (report : Report division sentenceStart line code events) :
    lineEvents division sentenceStart line code = events := by
  cases report with
  | header h found => simp only [lineEvents, found]
  | item item noHeader inData found =>
    simp only [lineEvents, noHeader, if_pos inData, found, Option.map_some, Option.toList_some]
  | paragraph name noHeader inProcedure opened =>
    have notData : division ≠ some "DATA".toList := by rw [inProcedure]; decide
    simp only [lineEvents, noHeader, if_neg notData, if_pos inProcedure, procedureEvents, opened]
  | statements noHeader inProcedure unopened =>
    have notData : division ≠ some "DATA".toList := by rw [inProcedure]; decide
    simp only [lineEvents, noHeader, if_neg notData, if_pos inProcedure, procedureEvents, unopened]
  | silent noHeader noItem elsewhere =>
    simp only [lineEvents, noHeader, if_neg elsewhere]
    split
    · rename_i inData
      rw [noItem inData]
      rfl
    · rfl

theorem report_iff :
    Report division sentenceStart line code events ↔ lineEvents division sentenceStart line code = events :=
  ⟨Report.eq, fun same => same ▸ report_lineEvents division sentenceStart line code⟩

/-- A scan goes on with a report of the line. -/
theorem Scan.exists_report (s : Scan) (c : LineNumber × Text) :
    ∃ events, Report s.assembly.division s.sentenceStart c.1 c.2 events ∧
      (s.advance c).assembly = s.assembly.run events :=
  ⟨_, report_lineEvents .., rfl⟩

/-- A line that is read as nothing: in the procedure division it is seen, and elsewhere it reports nothing. -/
theorem lineEvents_of_unread (noHeader : header? code = none) (noItem : dataItem? line code = none)
    (unopened : paragraphHeader? sentenceStart code = none) (unstated : statements line code = []) :
    lineEvents division sentenceStart line code =
      if division = some "PROCEDURE".toList then [.observe line] else [] := by
  by_cases inProcedure : division = some "PROCEDURE".toList
  · rw [if_pos inProcedure, (Report.statements noHeader inProcedure unopened).eq, unstated]
    rfl
  · rw [if_neg inProcedure, (Report.silent noHeader (fun _ => noItem) inProcedure).eq]

/-! ## Events of a report -/

theorem mem_statementEvents_iff {e : Event} :
    e ∈ (statements line code).map Event.statement ++ [.observe line] ↔
      (∃ s ∈ statements line code, e = .statement s) ∨ e = .observe line := by
  simp only [List.mem_append, List.mem_map, List.mem_singleton, eq_comm]

theorem header?_eq_division_iff {name : Text} :
    header? code = some (.division name) ↔ divisionName? code = some name := by
  rw [header?]
  cases divisionName? code with
  | some found => simp
  | none => cases sectionName? code <;> simp

/-- A line reports a division where it names one, and nowhere else. -/
theorem division_mem_lineEvents_iff {l : LineNumber} {name : Text} :
    .division name l ∈ lineEvents division sentenceStart line code ↔ l = line ∧ divisionName? code = some name := by
  rw [← header?_eq_division_iff]
  have report := report_lineEvents division sentenceStart line code
  generalize lineEvents division sentenceStart line code = events at report ⊢
  cases report with
  | header h found => cases h <;> simp [found, Header.event, and_comm, eq_comm]
  | item item noHeader | paragraph name noHeader | statements noHeader | silent noHeader => simp [noHeader]

/-- A line opens a paragraph in the procedure division, where it is no header of another kind. -/
theorem paragraph_mem_lineEvents_iff {l : LineNumber} {name : Text} :
    .paragraph name l ∈ lineEvents division sentenceStart line code ↔
      l = line ∧ header? code = none ∧ division = some "PROCEDURE".toList ∧
        paragraphHeader? sentenceStart code = some name := by
  have report := report_lineEvents division sentenceStart line code
  generalize lineEvents division sentenceStart line code = events at report ⊢
  cases report with
  | header h found => cases h <;> simp [found, Header.event]
  | item item noHeader inData found => simp [inData]
  | paragraph name noHeader inProcedure opened => simp [noHeader, inProcedure, opened, and_comm, eq_comm]
  | statements noHeader inProcedure unopened => simp [unopened]
  | silent noHeader noItem elsewhere =>
    exact iff_of_false List.not_mem_nil fun ⟨_, _, inProcedure, _⟩ => elsewhere inProcedure

end CobolAtlas.Source
