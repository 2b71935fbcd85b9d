/-
# CobolAtlas.Proofs.Program.Extents -- lines in order

Where the events of a file come line after line, what a program records lies in the order of the lines:
paragraphs one after the other, statements inside their paragraphs, paragraphs below the header of their
section, items one to a line.  `Program.Extents` says so of a program and the last line of its file.

`Assembly.Extents` is the same of an assembly and a line that nothing recorded passes.  An event of a later
line keeps it for that line (`step_extents`).  Statements may also follow on the line of a statement
(`run_statements_extents`): the first of them leaves a paragraph open, so that no other opens one.
-/
import CobolAtlas.Proofs.Program.Closing
import CobolAtlas.Proofs.Program.LineNumber
import Mathlib.Data.List.Forall2

namespace CobolAtlas

set_option autoImplicit false

/-! ## Programs -/

/-- A paragraph that a section lists, with the name and the line of the section. -/
structure Listing where
  sectionName : Text
  sectionLine : LineNumber
  paragraphName : Text

/-- The paragraphs that a section lists. -/
def ProcedureSection.listings (s : ProcedureSection) : List Listing :=
  s.paragraphs.map fun name => ⟨s.name, s.line, name⟩

/-- The paragraph is the one that is listed, and it stands below the header of the section. -/
structure Listing.Heads (l : Listing) (p : Paragraph) : Prop where
  inSection : p.inSection = some l.sectionName
  name : p.name = l.paragraphName
  above : l.sectionLine < p.line

/-- The paragraph lies on lines from 1 to `last` and holds its statements in the order of their lines. -/
structure Paragraph.Spans (p : Paragraph) (last : LineNumber) : Prop where
  first : 1 ≤ p.line
  forward : p.line ≤ p.endLine
  last : p.endLine ≤ last
  statements : ∀ s ∈ p.statements, p.line ≤ s.line ∧ s.line ≤ p.endLine
  ordered : p.statements.Pairwise fun s t => s.line ≤ t.line

/-- The items stand on lines from 1 to `last`, each below the one before. -/
structure DataSection.Spans (s : DataSection) (last : LineNumber) : Prop where
  items : ∀ i ∈ s.items, 1 ≤ i.line ∧ i.line ≤ last
  ordered : s.items.Pairwise fun i j => i.line < j.line

/-- What the program records lies in order on lines from 1 to `last`.  The paragraphs that stand in sections
are, one by one, those that the sections list. -/
structure Program.Extents (p : Program) (last : LineNumber) : Prop where
  paragraphs : ∀ q ∈ p.paragraphs, q.Spans last
  disjoint : p.paragraphs.Pairwise fun q r => q.endLine < r.line
  sections : p.sections.Pairwise fun s t => s.line < t.line
  listed : List.Forall₂ Listing.Heads (p.sections.flatMap ProcedureSection.listings)
    (p.paragraphs.filter (·.inSection.isSome))
  items : ∀ s ∈ p.dataSections, s.Spans last

theorem Paragraph.Spans.mono {p : Paragraph} {last bound : LineNumber} (spans : p.Spans last) (le : last ≤ bound) :
    p.Spans bound :=
  { spans with last := UInt32.le_trans spans.last le }

/-- A paragraph may reach further. -/
theorem Paragraph.Spans.widen {p : Paragraph} {last line bound : LineNumber} (spans : p.Spans last)
    (further : p.endLine ≤ line) (le : line ≤ bound) : { p with endLine := line }.Spans bound where
  first := spans.first
  forward := UInt32.le_trans spans.forward further
  last := le
  statements := fun s member => ⟨(spans.statements s member).1, UInt32.le_trans (spans.statements s member).2 further⟩
  ordered := spans.ordered

theorem DataSection.Spans.mono {s : DataSection} {last bound : LineNumber} (spans : s.Spans last) (le : last ≤ bound) :
    s.Spans bound :=
  { spans with items := fun i member => ⟨(spans.items i member).1, UInt32.le_trans (spans.items i member).2 le⟩ }

/-- A statement at the end of a paragraph that reaches it. -/
theorem Paragraph.Spans.append {p : Paragraph} {bound last line : LineNumber} (spans : p.Spans bound) {s : Statement}
    (after : bound ≤ s.line) (reaches : s.line ≤ line) (le : line ≤ last) :
    { p with statements := p.statements ++ [s], endLine := line }.Spans last := by
  have ends : p.endLine ≤ s.line := UInt32.le_trans spans.last after
  have wider := spans.widen (UInt32.le_trans ends reaches) le
  refine ⟨spans.first, wider.forward, le, List.forall_mem_append.2 ⟨wider.statements, ?_⟩,
    List.pairwise_append.2 ⟨spans.ordered, List.pairwise_singleton _ _, fun t old => ?_⟩⟩
  · exact List.forall_mem_singleton.2 ⟨UInt32.le_trans spans.forward ends, reaches⟩
  · exact List.forall_mem_singleton.2 (UInt32.le_trans (spans.statements t old).2 ends)

/-- An item below all others. -/
theorem DataSection.Spans.append {s : DataSection} {bound : LineNumber} (spans : s.Spans bound) {item : DataItem}
    (below : bound < item.line) : { s with items := s.items ++ [item] }.Spans item.line := by
  have earlier := (spans.mono (UInt32.le_of_lt below)).items
  refine ⟨List.forall_mem_append.2 ⟨earlier, List.forall_mem_singleton.2 ?_⟩,
    List.pairwise_append.2 ⟨spans.ordered, List.pairwise_singleton _ _, fun i old => ?_⟩⟩
  · exact ⟨LineNumber.one_le_of_lt below, UInt32.le_refl _⟩
  · exact List.forall_mem_singleton.2 (UInt32.lt_of_le_of_lt (spans.items i old).2 below)

/-- The paragraph as it was when it opened. -/
def Paragraph.header (p : Paragraph) : Paragraph := { p with endLine := p.line, statements := [] }

/-- Whether a paragraph is the one listed shows in its header. -/
theorem listed_congr {listings : List Listing} {ps qs : List Paragraph}
    (same : ps.map Paragraph.header = qs.map Paragraph.header)
    (listed : List.Forall₂ Listing.Heads listings (ps.filter (·.inSection.isSome))) :
    List.Forall₂ Listing.Heads listings (qs.filter (·.inSection.isSome)) := by
  have headers : ∀ rs : List Paragraph,
      List.Forall₂ Listing.Heads listings ((rs.map Paragraph.header).filter (·.inSection.isSome)) ↔
        List.Forall₂ Listing.Heads listings (rs.filter (·.inSection.isSome)) := by
    intro rs
    rw [List.filter_map, List.forall₂_map_right_iff]
    have heads : ∀ l p, Listing.Heads l (Paragraph.header p) ↔ Listing.Heads l p :=
      fun l p => ⟨fun h => ⟨h.inSection, h.name, h.above⟩, fun h => ⟨h.inSection, h.name, h.above⟩⟩
    simp only [heads]
    rfl
  rw [← headers, ← same, headers]
  exact listed

/-- The line that an event is about. -/
def Event.line? : Event → Option LineNumber
  | .division _ line | .sectionHeader _ line | .procedureSection _ line | .paragraph _ line => some line
  | .dataItem item => some item.line
  | .statement s => some s.line
  | .observe line => some line
  | .programId _ | .dataSection _ | .syntaxErrors _ => none

theorem Event.OpensSection.line?_eq {division : Option Text} {name : Text} {line : LineNumber} {e : Event}
    (opens : e.OpensSection division name line) : e.line? = some line := by
  cases opens <;> rfl

namespace Assembly

/-! ## The invariant -/

/-- What the assembly has recorded lies in order on lines from 1 to `bound`; the open paragraph would span
the lines seen so far. -/
structure Extents (a : Assembly) (bound : LineNumber) : Prop where
  lastLine : a.lastLine ≤ bound
  closed : ∀ p ∈ a.closedParagraphs, p.Spans bound
  opened : ∀ p, a.openParagraph = some p → { p with endLine := max p.endLine a.lastLine }.Spans bound
  disjoint : a.paragraphs.Pairwise fun p q => p.endLine < q.line
  sections : (a.sections.map (·.line)).Pairwise (· < ·)
  headers : ∀ l ∈ a.sections.map (·.line), l ≤ bound
  listed : List.Forall₂ Listing.Heads (a.sections.flatMap ProcedureSection.listings)
    (a.paragraphs.filter (·.inSection.isSome))
  items : ∀ s ∈ a.dataSections, s.Spans bound

variable {a : Assembly} {bound line : LineNumber}

theorem start_extents (path : Path) (backend : Text) : (start path backend).Extents 0 where
  lastLine := UInt32.le_refl 0
  closed := fun _ member => absurd member List.not_mem_nil
  opened := fun _ isOpen => by cases isOpen
  disjoint := List.Pairwise.nil
  sections := List.Pairwise.nil
  headers := fun _ member => absurd member List.not_mem_nil
  listed := List.Forall₂.nil
  items := fun _ member => absurd member List.not_mem_nil

theorem Extents.mono (extents : a.Extents bound) (le : bound ≤ line) : a.Extents line where
  lastLine := UInt32.le_trans extents.lastLine le
  closed := fun p member => (extents.closed p member).mono le
  opened := fun p isOpen => (extents.opened p isOpen).mono le
  disjoint := extents.disjoint
  sections := extents.sections
  headers := fun l member => UInt32.le_trans (extents.headers l member) le
  listed := extents.listed
  items := fun s member => (extents.items s member).mono le

/-- All paragraphs end on `bound` or before, as far as is known. -/
theorem Extents.endLine_le (extents : a.Extents bound) {p : Paragraph} (member : p ∈ a.paragraphs) :
    p.endLine ≤ bound := by
  rcases List.mem_append.1 member with closed | opened
  · exact (extents.closed p closed).last
  · have spans := extents.opened p (Option.mem_toList.1 opened)
    exact UInt32.le_trans (LineNumber.left_le_max _ _) spans.last

/-! ## Closing -/

theorem closeParagraph_headers (a : Assembly) :
    a.closeParagraph.paragraphs.map Paragraph.header = a.paragraphs.map Paragraph.header := by
  cases isOpen : a.openParagraph with
  | none => rw [closeParagraph_of_none isOpen]
  | some p =>
    rw [closeParagraph_of_some isOpen]
    simp [paragraphs, isOpen, Paragraph.header]

theorem closeParagraph_extents (extents : a.Extents bound) : a.closeParagraph.Extents bound := by
  have listed := listed_congr (closeParagraph_headers a).symm extents.listed
  cases isOpen : a.openParagraph with
  | none =>
    rw [closeParagraph_of_none isOpen]
    exact extents
  | some p =>
    rw [closeParagraph_of_some isOpen] at listed ⊢
    have disjoint := extents.disjoint
    simp only [paragraphs, isOpen, Option.toList_some, List.pairwise_append] at disjoint
    obtain ⟨closed, -, apart⟩ := disjoint
    refine ⟨extents.lastLine, ?_, fun q isOpen => (by cases isOpen), ?_, extents.sections, extents.headers, listed,
      extents.items⟩
    · exact List.forall_mem_append.2 ⟨extents.closed, List.forall_mem_singleton.2 (extents.opened p isOpen)⟩
    · simp only [paragraphs, Option.toList_none, List.append_nil, List.pairwise_append]
      refine ⟨closed, List.pairwise_singleton _ _, fun q old => ?_⟩
      exact List.forall_mem_singleton.2 (apart q old p (List.mem_singleton_self p))

theorem closed_extents (extents : a.Extents bound) : a.closed.Extents bound := by
  have closing := closeParagraph_extents extents
  have sections : a.closed.sections = a.closeParagraph.sections := closeSection_sections _
  exact ⟨closing.lastLine, closing.closed, closing.opened, closing.disjoint, sections ▸ closing.sections,
    sections ▸ closing.headers, sections ▸ closing.listed, closing.items⟩

/-! ## Events of a later line -/

/-- A line that is seen widens the open paragraph. -/
theorem observe_spans {p : Paragraph} {last : LineNumber} (spans : { p with endLine := max p.endLine last }.Spans bound)
    (le : line ≤ bound) : { p with endLine := max p.endLine (max last line) }.Spans bound := by
  have opened : p.endLine ≤ bound := UInt32.le_trans (LineNumber.left_le_max _ _) spans.last
  have seen : last ≤ bound := UInt32.le_trans (LineNumber.right_le_max _ _) spans.last
  have further : max p.endLine last ≤ max p.endLine (max last line) :=
    LineNumber.max_le (LineNumber.left_le_max _ _)
      (UInt32.le_trans (LineNumber.left_le_max last line) (LineNumber.right_le_max _ _))
  exact spans.widen further (LineNumber.max_le opened (LineNumber.max_le seen le))

theorem observe_extents (extents : a.Extents line) : (a.observe line).Extents line :=
  ⟨LineNumber.max_le extents.lastLine (UInt32.le_refl line), extents.closed,
    fun p isOpen => observe_spans (extents.opened p isOpen) (UInt32.le_refl line), extents.disjoint, extents.sections,
    extents.headers, extents.listed, extents.items⟩

theorem enterDivision_extents (extents : a.Extents bound) (below : bound < line) (name : Text) :
    (a.enterDivision name line).Extents line := by
  have closed := (closed_extents extents).mono (UInt32.le_of_lt below)
  have noneOpen : (a.enterDivision name line).openParagraph = none := closed_openParagraph a
  refine ⟨UInt32.le_refl line, closed.closed, fun p isOpen => ?_, closed.disjoint, closed.sections, closed.headers,
    closed.listed, closed.items⟩
  rw [noneOpen] at isOpen
  cases isOpen

theorem enterDataSection_extents (extents : a.Extents bound) (name : Text) :
    (a.enterDataSection name).Extents bound := by
  refine ⟨extents.lastLine, extents.closed, extents.opened, extents.disjoint, extents.sections, extents.headers,
    extents.listed, ?_⟩
  simp only [enterDataSection]
  split
  · exact extents.items
  · refine List.forall_mem_append.2 ⟨extents.items, List.forall_mem_singleton.2 ?_⟩
    exact ⟨fun i member => absurd member List.not_mem_nil, List.Pairwise.nil⟩

theorem enterProcedureSection_extents (extents : a.Extents bound) (below : bound < line) (name : Text) :
    (a.enterProcedureSection name line).Extents line := by
  have closed := closed_extents extents
  have later := closed.mono (UInt32.le_of_lt below)
  have noneOpen : (a.enterProcedureSection name line).openParagraph = none := closed_openParagraph a
  have sections : (a.enterProcedureSection name line).sections =
      a.closed.sections ++ [⟨Name.ofSection name, line, []⟩] := by
    rw [Assembly.sections, Assembly.sections, closed_openSection, Option.toList_none, List.append_nil]
    rfl
  refine ⟨UInt32.le_refl line, later.closed, fun p isOpen => ?_, later.disjoint, ?_, ?_, ?_, later.items⟩
  · rw [noneOpen] at isOpen
    cases isOpen
  · rw [sections, List.map_append, List.pairwise_append]
    refine ⟨closed.sections, List.pairwise_singleton _ _, fun l old => ?_⟩
    exact List.forall_mem_singleton.2 (UInt32.lt_of_le_of_lt (closed.headers l old) below)
  · rw [sections, List.map_append]
    exact List.forall_mem_append.2 ⟨later.headers, List.forall_mem_singleton.2 (UInt32.le_refl line)⟩
  · rw [sections, List.flatMap_append]
    have nothing : [(⟨Name.ofSection name, line, []⟩ : ProcedureSection)].flatMap ProcedureSection.listings = [] := rfl
    rw [nothing, List.append_nil]
    exact closed.listed

theorem fileItem_extents (extents : a.Extents bound) {item : DataItem} (below : bound < item.line) (current : Text) :
    (a.fileItem current item).Extents item.line := by
  have observed := observe_extents (extents.mono (UInt32.le_of_lt below))
  refine ⟨observed.lastLine, observed.closed, observed.opened, observed.disjoint, observed.sections, observed.headers,
    observed.listed, fun s member => ?_⟩
  obtain ⟨old, known, rfl⟩ := List.mem_map.1 member
  split
  · have below : bound < ({ item with name := Name.clean item.name } : DataItem).line := below
    exact (extents.items old known).append below
  · exact observed.items old known

/-- A paragraph that opens below everything is the last one, also in the section that is open. -/
theorem enterParagraph_extents (extents : a.Extents bound) (below : bound < line) (name : Text) :
    (a.enterParagraph name line).Extents line := by
  have closed := closeParagraph_extents extents
  have noneOpen := closeParagraph_openParagraph a
  unfold enterParagraph
  generalize Name.clean name = name
  generalize a.closeParagraph = b at closed noneOpen ⊢
  have later := closed.mono (UInt32.le_of_lt below)
  have before : b.paragraphs = b.closedParagraphs := by rw [paragraphs, noneOpen, Option.toList_none, List.append_nil]
  -- the section that is open has one name more, and its line is as before
  have lines : (b.closedSections ++ (b.openSection.map fun s : ProcedureSection =>
      { s with paragraphs := s.paragraphs ++ [name] }).toList).map ProcedureSection.line =
        b.sections.map ProcedureSection.line := by
    cases inSection : b.openSection <;> simp [Assembly.sections, inSection]
  refine ⟨UInt32.le_refl line, later.closed, fun p isOpen => ?_, ?_, lines ▸ closed.sections, lines ▸ later.headers, ?_,
    later.items⟩
  · cases isOpen
    have only : max line line = line := LineNumber.max_self line
    simp only [only]
    exact ⟨LineNumber.one_le_of_lt below, UInt32.le_refl line, UInt32.le_refl line,
      fun s member => absurd member List.not_mem_nil, List.Pairwise.nil⟩
  · simp only [paragraphs, Option.toList_some, List.pairwise_append]
    refine ⟨before ▸ closed.disjoint, List.pairwise_singleton _ _, fun p old => ?_⟩
    exact List.forall_mem_singleton.2 (UInt32.lt_of_le_of_lt (closed.endLine_le (before ▸ old)) below)
  · have listed := closed.listed
    rw [before] at listed
    cases inSection : b.openSection with
    | none =>
      simp only [Assembly.sections, inSection] at listed
      simpa [Assembly.sections, paragraphs, inSection] using listed
    | some s =>
      have above : s.line < line := by
        refine UInt32.lt_of_le_of_lt (closed.headers s.line ?_) below
        simp [Assembly.sections, inSection]
      have last : List.Forall₂ Listing.Heads [⟨s.name, s.line, name⟩]
          [⟨name, some s.name, line, line, []⟩] :=
        List.Forall₂.cons ⟨rfl, rfl, above⟩ List.Forall₂.nil
      simp only [Assembly.sections, inSection] at listed
      have both := List.rel_append listed last
      simpa [Assembly.sections, paragraphs, inSection, ProcedureSection.listings] using both

/-! ## Statements -/

/-- A statement that is not above what was recorded goes to the end of the open paragraph. -/
theorem appendStatement_extents (extents : a.Extents bound) (s : Statement) (after : bound ≤ s.line) :
    (a.appendStatement s).Extents s.line := by
  have later := extents.mono after
  unfold appendStatement
  split
  · exact later
  · rename_i p isOpen
    have seen : max a.lastLine s.line ≤ s.line := LineNumber.max_le later.lastLine (UInt32.le_refl _)
    have spans := extents.opened p isOpen
    have paragraphs_ : a.paragraphs = a.closedParagraphs ++ [p] := by rw [paragraphs, isOpen, Option.toList_some]
    have disjoint := extents.disjoint
    rw [paragraphs_, List.pairwise_append] at disjoint
    refine ⟨seen, later.closed, fun q new => ?_, ?_, later.sections, later.headers, ?_, later.items⟩
    · cases new
      have ends : p.endLine ≤ s.line :=
        UInt32.le_trans (LineNumber.left_le_max _ _) (UInt32.le_trans spans.last after)
      have reaches : s.line ≤ max p.endLine (max a.lastLine s.line) :=
        UInt32.le_trans (LineNumber.right_le_max _ _) (LineNumber.right_le_max _ _)
      exact spans.append after reaches (LineNumber.max_le ends seen)
    · simp only [paragraphs, observe, Option.toList_some, List.pairwise_append]
      refine ⟨disjoint.1, List.pairwise_singleton _ _, fun q old => ?_⟩
      exact List.forall_mem_singleton.2 (disjoint.2.2 q old p (List.mem_singleton_self p))
    · refine listed_congr ?_ extents.listed
      rw [paragraphs_]
      simp [paragraphs, observe, Paragraph.header]

/-! ## Lines -/

/-- An event of a line below everything that was recorded keeps the order. -/
theorem step_extents (extents : a.Extents bound) (below : bound < line) {e : Event}
    (there : ∀ l, e.line? = some l → l = line) : (a.step e).Extents line := by
  have later := extents.mono (UInt32.le_of_lt below)
  have effect := step_effect a e
  generalize a.step e = b at effect ⊢
  cases effect with
  | ignored | named | counted =>
    exact ⟨later.lastLine, later.closed, later.opened, later.disjoint, later.sections, later.headers, later.listed,
      later.items⟩
  | observed l =>
    obtain rfl := there l rfl
    exact observe_extents later
  | division name l =>
    obtain rfl := there l rfl
    exact enterDivision_extents extents below name
  | dataSection name => exact enterDataSection_extents later name
  | procedureSection name l opens =>
    obtain rfl := there l opens.line?_eq
    exact enterProcedureSection_extents extents below name
  | item item current =>
    obtain rfl := there item.line rfl
    exact fileItem_extents extents below current
  | paragraph name l =>
    obtain rfl := there l rfl
    exact enterParagraph_extents extents below name
  | entry s =>
    obtain rfl := there s.line rfl
    exact appendStatement_extents (enterParagraph_extents extents below _) s (UInt32.le_refl _)
  | statement s =>
    obtain rfl := there s.line rfl
    exact appendStatement_extents extents s (UInt32.le_of_lt below)

/-- Statements of a line on which a paragraph is open already. -/
theorem run_statements_extents (extents : a.Extents line) (isOpen : a.openParagraph.isSome = true) {ss : List Statement}
    (there : ∀ s ∈ ss, s.line = line) : (a.run (ss.map .statement)).Extents line := by
  induction ss generalizing a with
  | nil => exact extents
  | cons s ss ih =>
    obtain rfl := there s List.mem_cons_self
    obtain ⟨p, opened⟩ := Option.isSome_iff_exists.1 isOpen
    rw [List.map_cons, run_cons, step, addStatement_of_some opened]
    exact ih (appendStatement_extents extents s (UInt32.le_refl _)) ((appendStatement_isSome a s).trans isOpen)
      fun t member => there t (List.mem_cons_of_mem s member)

/-! ## The finished program -/

theorem finish_extents (extents : a.Extents bound) : a.finish.Extents bound := by
  have closing := closeParagraph_extents extents
  have paragraphs : a.finish.paragraphs = a.closeParagraph.paragraphs := finish_paragraphs a
  have sections : a.closeParagraph.sections = a.finish.sections := closeParagraph_sections a
  have dataSections : a.finish.dataSections = a.dataSections := rfl
  refine ⟨closing.closed, paragraphs ▸ closing.disjoint, List.pairwise_map.1 extents.sections, ?_, extents.items⟩
  rw [paragraphs, ← sections]
  exact closing.listed

end Assembly

end CobolAtlas
