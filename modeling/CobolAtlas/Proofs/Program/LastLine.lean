/-
# CobolAtlas.Proofs.Program.LastLine -- what the last line of a program covers

The last line of a program is the last that an item or the end of a paragraph reaches.  A paragraph ends on the lines of
its header and its statements or below (`Program.Encloses`), in whatever order the events gave these lines: a line of an
open paragraph is seen, and the paragraph is closed before the last line seen is set to another.  So the last line
is the last of all lines of items and paragraphs (`isLast_coveredLines`).

The headers of procedure sections are recorded with their lines too, but do not count.  The last line is the last of
all lines that are recorded exactly if no section begins below it (`isLast_recordedLines_iff`).
-/
import CobolAtlas.Proofs.Program.Closing
import CobolAtlas.Proofs.Program.LineNumber

namespace CobolAtlas

set_option autoImplicit false

/-- The line is the last of the lines, and 0 where there are none. -/
structure LineNumber.IsLast (last : LineNumber) (lines : List LineNumber) : Prop where
  covers : ∀ l ∈ lines, l ≤ last
  reached : lines ≠ [] → last ∈ lines
  empty : lines = [] → last = 0

/-- The lines of the paragraph's header, its end and its statements. -/
def Paragraph.lines (q : Paragraph) : List LineNumber := q.line :: q.endLine :: q.statements.map (·.line)

/-- Neither the header nor a statement of the paragraph stands below the line. -/
def Paragraph.EndsBy (q : Paragraph) (last : LineNumber) : Prop :=
  q.line ≤ last ∧ ∀ s ∈ q.statements, s.line ≤ last

theorem Paragraph.EndsBy.mono {q : Paragraph} {last bound : LineNumber} (ends : q.EndsBy last) (le : last ≤ bound) :
    q.EndsBy bound :=
  ⟨UInt32.le_trans ends.1 le, fun s member => UInt32.le_trans (ends.2 s member) le⟩

namespace Program

/-- The lines of items and of paragraphs. -/
def coveredLines (p : Program) : List LineNumber :=
  (p.dataSections.flatMap (·.items)).map (·.line) ++ p.paragraphs.flatMap Paragraph.lines

/-- All lines that are recorded. -/
def recordedLines (p : Program) : List LineNumber := p.coveredLines ++ p.sections.map (·.line)

/-- Every paragraph ends below its header and its statements. -/
def Encloses (p : Program) : Prop := ∀ q ∈ p.paragraphs, q.EndsBy q.endLine

end Program

namespace Assembly

/-! ## Paragraphs enclose what they hold -/

/-- Paragraphs that are closed enclose what they hold, and the open one would if it were closed. -/
structure Encloses (a : Assembly) : Prop where
  closed : ∀ q ∈ a.closedParagraphs, q.EndsBy q.endLine
  opened : ∀ p, a.openParagraph = some p → p.EndsBy (max p.endLine a.lastLine)

theorem start_encloses (path : Path) (backend : Text) : (start path backend).Encloses where
  closed := fun _ member => absurd member List.not_mem_nil
  opened := fun _ isOpen => by cases isOpen

variable {a : Assembly}

/-- An event that leaves the paragraphs as they are may raise the last line. -/
theorem Encloses.of_kept {b : Assembly} (encloses : a.Encloses) (closed : b.closedParagraphs = a.closedParagraphs)
    (opened : b.openParagraph = a.openParagraph) (later : a.lastLine ≤ b.lastLine) : b.Encloses where
  closed := fun q member => encloses.closed q (closed ▸ member)
  opened := fun p isOpen => (encloses.opened p (opened ▸ isOpen)).mono
    (LineNumber.max_le (LineNumber.left_le_max _ _) (UInt32.le_trans later (LineNumber.right_le_max _ _)))

theorem closeParagraph_encloses (encloses : a.Encloses) :
    ∀ q ∈ a.closeParagraph.closedParagraphs, q.EndsBy q.endLine := by
  cases isOpen : a.openParagraph with
  | none =>
    rw [closeParagraph_of_none isOpen]
    exact encloses.closed
  | some p =>
    rw [closeParagraph_of_some isOpen]
    exact List.forall_mem_append.2 ⟨encloses.closed, List.forall_mem_singleton.2 (encloses.opened p isOpen)⟩

/-- An event that closes the open paragraph may set the last line. -/
theorem Encloses.of_closed {b : Assembly} (encloses : a.Encloses)
    (closed : b.closedParagraphs = a.closeParagraph.closedParagraphs) (noneOpen : b.openParagraph = none) :
    b.Encloses where
  closed := closed ▸ closeParagraph_encloses encloses
  opened := fun p isOpen => by rw [noneOpen] at isOpen; cases isOpen

theorem enterParagraph_encloses (encloses : a.Encloses) (name : Text) (line : LineNumber) :
    (a.enterParagraph name line).Encloses where
  closed := closeParagraph_encloses encloses
  opened := fun p isOpen => by
    obtain rfl := Option.some.inj isOpen
    exact ⟨LineNumber.left_le_max line line, fun s member => absurd member List.not_mem_nil⟩

theorem appendStatement_encloses (encloses : a.Encloses) (s : Statement) : (a.appendStatement s).Encloses := by
  unfold appendStatement
  split
  · exact encloses
  · rename_i p isOpen
    refine ⟨encloses.closed, fun q new => ?_⟩
    cases new
    have before := encloses.opened p isOpen
    have seen : max p.endLine a.lastLine ≤ max p.endLine (max a.lastLine s.line) :=
      LineNumber.max_assoc p.endLine a.lastLine s.line ▸ LineNumber.left_le_max _ _
    refine ⟨UInt32.le_trans before.1 seen, List.forall_mem_append.2 ⟨(before.mono seen).2, ?_⟩⟩
    exact List.forall_mem_singleton.2 (UInt32.le_trans (LineNumber.right_le_max _ _) (LineNumber.right_le_max _ _))

/-- Every event keeps that paragraphs enclose what they hold. -/
theorem step_encloses (encloses : a.Encloses) (e : Event) : (a.step e).Encloses := by
  have effect := step_effect a e
  generalize a.step e = b at effect ⊢
  cases effect with
  | ignored | named | counted | dataSection => exact encloses.of_kept rfl rfl (UInt32.le_refl _)
  | observed | item => exact encloses.of_kept rfl rfl (LineNumber.left_le_max _ _)
  | division | procedureSection => exact encloses.of_closed rfl (closed_openParagraph a)
  | paragraph name line => exact enterParagraph_encloses encloses name line
  | entry s => exact appendStatement_encloses (enterParagraph_encloses encloses _ _) s
  | statement s => exact appendStatement_encloses encloses s

theorem run_encloses (encloses : a.Encloses) (events : List Event) : (a.run events).Encloses := by
  induction events generalizing a with
  | nil => exact encloses
  | cons e events ih => exact ih (step_encloses encloses e)

end Assembly

namespace Program

/-- In whatever order events come, paragraphs enclose what they hold. -/
theorem ofEvents_encloses (path : Path) (backend : Text) (events : List Event) :
    (ofEvents path backend events).Encloses :=
  Assembly.closeParagraph_encloses (Assembly.run_encloses (Assembly.start_encloses path backend) events)

/-! ## The last line -/

variable {p : Program}

theorem endLine_le_lastLine {q : Paragraph} (member : q ∈ p.paragraphs) : q.endLine ≤ p.lastLine :=
  LineNumber.le_foldl_max_of_mem (List.mem_append_left _ (List.mem_map_of_mem member)) 0

theorem line_le_lastLine (encloses : p.Encloses) {q : Paragraph} (member : q ∈ p.paragraphs) : q.line ≤ p.lastLine :=
  UInt32.le_trans (encloses q member).1 (endLine_le_lastLine member)

theorem extentLines_subset (p : Program) : p.extentLines ⊆ p.coveredLines := by
  intro l member
  rcases List.mem_append.1 member with isEnd | isItem
  · obtain ⟨q, isParagraph, rfl⟩ := List.mem_map.1 isEnd
    exact List.mem_append_right _ (List.mem_flatMap.2 ⟨q, isParagraph, List.mem_cons_of_mem _ List.mem_cons_self⟩)
  · exact List.mem_append_left _ isItem

theorem coveredLines_le (encloses : p.Encloses) {l : LineNumber} (member : l ∈ p.coveredLines) : l ≤ p.lastLine := by
  rcases List.mem_append.1 member with isItem | inParagraph
  · exact LineNumber.le_foldl_max_of_mem (List.mem_append_right _ isItem) 0
  · obtain ⟨q, isParagraph, inLines⟩ := List.mem_flatMap.1 inParagraph
    rcases List.mem_cons.1 inLines with rfl | inLines
    · exact line_le_lastLine encloses isParagraph
    · rcases List.mem_cons.1 inLines with rfl | isStatement
      · exact endLine_le_lastLine isParagraph
      · obtain ⟨s, inStatements, rfl⟩ := List.mem_map.1 isStatement
        exact UInt32.le_trans ((encloses q isParagraph).2 s inStatements) (endLine_le_lastLine isParagraph)

/-- The last line is the last of the lines of items and paragraphs. -/
theorem isLast_coveredLines (encloses : p.Encloses) : LineNumber.IsLast p.lastLine p.coveredLines := by
  refine ⟨fun l => coveredLines_le encloses, fun nonempty => ?_, fun empty => ?_⟩
  · rcases List.mem_cons.1 (LineNumber.foldl_max_mem p.extentLines 0) with zero | reached
    · -- nothing ends below line 0, so that every line is line 0
      obtain ⟨l, member⟩ := List.exists_mem_of_ne_nil _ nonempty
      have above : l ≤ p.lastLine := coveredLines_le encloses member
      have last : p.lastLine = 0 := zero
      have same : l = p.lastLine := UInt32.le_antisymm above (last ▸ UInt32.zero_le)
      exact same ▸ member
    · exact extentLines_subset p reached
  · have none : p.extentLines = [] := List.subset_nil.1 (empty ▸ extentLines_subset p)
    rw [lastLine, none]
    rfl

/-- The last line is the last of all recorded lines where no procedure section begins below it. -/
theorem isLast_recordedLines_iff (encloses : p.Encloses) :
    LineNumber.IsLast p.lastLine p.recordedLines ↔ ∀ s ∈ p.sections, s.line ≤ p.lastLine := by
  have last := isLast_coveredLines encloses
  constructor
  · intro all s member
    exact all.covers _ (List.mem_append_right _ (List.mem_map_of_mem member))
  · intro above
    have sectionLines : ∀ l ∈ p.sections.map (·.line), l ≤ p.lastLine := List.forall_mem_map.2 above
    refine ⟨List.forall_mem_append.2 ⟨last.covers, sectionLines⟩, fun nonempty => ?_, fun empty => ?_⟩
    · by_cases none : p.coveredLines = []
      · obtain ⟨l, member⟩ := List.exists_mem_of_ne_nil _ nonempty
        rw [recordedLines, none, List.nil_append] at member ⊢
        have zero := last.empty none
        have same : l = p.lastLine := UInt32.le_antisymm (sectionLines l member) (zero ▸ UInt32.zero_le)
        exact same ▸ member
      · exact List.mem_append_left _ (last.reached none)
    · exact last.empty (List.append_eq_nil_iff.1 empty).1

end Program

end CobolAtlas
