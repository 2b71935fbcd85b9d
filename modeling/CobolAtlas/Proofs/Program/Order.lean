/-
# CobolAtlas.Proofs.Program.Order -- lines that do not fall

Where the lines of events do not fall, though many may be of one line, what a program records lies in order all the
same: a paragraph ends before or on the line where the next one starts, its statements stand inside it and do not
fall, nor do the items of a data section, and no line passes the last one (`Program.InOrder`).

`Assembly.InOrder` is the same of an assembly, its open paragraph taken to end at the last line seen.  An event of
that line or a later one keeps it (`step_inOrder`), and so do events whose lines do not fall (`run_inOrder`).
-/
import CobolAtlas.Proofs.Program.Extents

namespace CobolAtlas

set_option autoImplicit false

/-! ## Lines -/

/-- The lines do not fall, and lie between `first` and `last`. -/
structure LineNumber.Rise (lines : List LineNumber) (first last : LineNumber) : Prop where
  ordered : lines.Pairwise (· ≤ ·)
  within : ∀ l ∈ lines, first ≤ l ∧ l ≤ last

section Lines

variable {lines after : List LineNumber} {first middle last : LineNumber}

theorem LineNumber.Rise.mono (rise : Rise lines middle last) (le : first ≤ middle) : Rise lines first last :=
  ⟨rise.ordered, fun l member => ⟨UInt32.le_trans le (rise.within l member).1, (rise.within l member).2⟩⟩

theorem LineNumber.Rise.append (rise : Rise lines first middle) (next : Rise after middle last)
    (up : first ≤ middle) (on : middle ≤ last) : Rise (lines ++ after) first last := by
  refine ⟨List.pairwise_append.2 ⟨rise.ordered, next.ordered, fun l before m later => ?_⟩, fun l member => ?_⟩
  · exact UInt32.le_trans (rise.within l before).2 (next.within m later).1
  · rcases List.mem_append.1 member with before | later
    · exact ⟨(rise.within l before).1, UInt32.le_trans (rise.within l before).2 on⟩
    · exact ⟨UInt32.le_trans up (next.within l later).1, (next.within l later).2⟩

end Lines

/-! ## Programs -/

/-- The paragraph ends on `last` or before, and holds its statements in the order of their lines. -/
structure Paragraph.Fits (p : Paragraph) (last : LineNumber) : Prop where
  forward : p.line ≤ p.endLine
  last : p.endLine ≤ last
  statements : ∀ s ∈ p.statements, p.line ≤ s.line ∧ s.line ≤ p.endLine
  ordered : p.statements.Pairwise fun s t => s.line ≤ t.line

/-- The paragraphs lie on lines up to `last`, none of them starting before the end of one that precedes it. -/
structure Paragraph.InTurn (ps : List Paragraph) (last : LineNumber) : Prop where
  fits : ∀ p ∈ ps, p.Fits last
  apart : ps.Pairwise fun p q => p.endLine ≤ q.line

/-- The items stand on lines up to `last` that do not fall. -/
structure DataSection.InTurn (s : DataSection) (last : LineNumber) : Prop where
  items : ∀ i ∈ s.items, i.line ≤ last
  ordered : s.items.Pairwise fun i j => i.line ≤ j.line

/-- What the program records lies in order on lines up to `last`. -/
structure Program.InOrder (p : Program) (last : LineNumber) : Prop where
  paragraphs : Paragraph.InTurn p.paragraphs last
  sections : ∀ s ∈ p.sections, s.line ≤ last
  items : ∀ s ∈ p.dataSections, s.InTurn last
  calls : ∀ e ∈ p.calls, e.line ≤ last

section Lists

variable {ps : List Paragraph} {p q : Paragraph} {bound line last : LineNumber}

theorem Paragraph.Fits.mono (fits : p.Fits bound) (le : bound ≤ line) : p.Fits line :=
  { fits with last := UInt32.le_trans fits.last le }

/-- A paragraph may reach further. -/
theorem Paragraph.Fits.widen (fits : p.Fits bound) (further : p.endLine ≤ line) (le : line ≤ last) :
    { p with endLine := line }.Fits last where
  forward := UInt32.le_trans fits.forward further
  last := le
  statements := fun s member => ⟨(fits.statements s member).1, UInt32.le_trans (fits.statements s member).2 further⟩
  ordered := fits.ordered

/-- A statement at the end of a paragraph that reaches it. -/
theorem Paragraph.Fits.append (fits : p.Fits bound) {s : Statement} (after : bound ≤ s.line) {wider : LineNumber}
    (reaches : s.line ≤ wider) (le : wider ≤ last) :
    { p with statements := p.statements ++ [s], endLine := wider }.Fits last := by
  have further : p.endLine ≤ wider := UInt32.le_trans (UInt32.le_trans fits.last after) reaches
  have widened : { p with endLine := wider }.Fits last := fits.widen further le
  have ends : p.endLine ≤ s.line := UInt32.le_trans fits.last after
  refine ⟨widened.forward, le, List.forall_mem_append.2 ⟨widened.statements, ?_⟩,
    List.pairwise_append.2 ⟨fits.ordered, List.pairwise_singleton _ _, fun t old => ?_⟩⟩
  · exact List.forall_mem_singleton.2 ⟨UInt32.le_trans fits.forward ends, reaches⟩
  · exact List.forall_mem_singleton.2 (UInt32.le_trans (fits.statements t old).2 ends)

theorem Paragraph.InTurn.mono (inTurn : InTurn ps bound) (le : bound ≤ line) : InTurn ps line :=
  ⟨fun p member => (inTurn.fits p member).mono le, inTurn.apart⟩

/-- One more paragraph, from `bound` on. -/
theorem Paragraph.InTurn.append (inTurn : InTurn ps bound) (after : bound ≤ p.line) (fits : p.Fits last) :
    InTurn (ps ++ [p]) last := by
  have le : bound ≤ last := UInt32.le_trans after (UInt32.le_trans fits.forward fits.last)
  refine ⟨List.forall_mem_append.2 ⟨(inTurn.mono le).fits, List.forall_mem_singleton.2 fits⟩,
    List.pairwise_append.2 ⟨inTurn.apart, List.pairwise_singleton _ _, fun q old => ?_⟩⟩
  exact List.forall_mem_singleton.2 (UInt32.le_trans (inTurn.fits q old).last after)

/-- The last paragraph may be another one that starts on the same line. -/
theorem Paragraph.InTurn.replace (inTurn : InTurn (ps ++ [p]) bound) (same : q.line = p.line) (fits : q.Fits last)
    (le : bound ≤ last) : InTurn (ps ++ [q]) last := by
  obtain ⟨old, -, before⟩ := List.pairwise_append.1 inTurn.apart
  obtain ⟨earlier, -⟩ := List.forall_mem_append.1 (inTurn.mono le).fits
  refine ⟨List.forall_mem_append.2 ⟨earlier, List.forall_mem_singleton.2 fits⟩,
    List.pairwise_append.2 ⟨old, List.pairwise_singleton _ _, fun r known => List.forall_mem_singleton.2 ?_⟩⟩
  rw [same]
  exact before r known p (List.mem_singleton_self p)

theorem DataSection.InTurn.mono {s : DataSection} (inTurn : s.InTurn bound) (le : bound ≤ line) : s.InTurn line :=
  ⟨fun i member => UInt32.le_trans (inTurn.items i member) le, inTurn.ordered⟩

theorem DataSection.InTurn.append {s : DataSection} (inTurn : s.InTurn bound) {item : DataItem}
    (after : bound ≤ item.line) : { s with items := s.items ++ [item] }.InTurn item.line := by
  refine ⟨List.forall_mem_append.2 ⟨(inTurn.mono after).items, List.forall_mem_singleton.2 (UInt32.le_refl _)⟩,
    List.pairwise_append.2 ⟨inTurn.ordered, List.pairwise_singleton _ _, fun i old => ?_⟩⟩
  exact List.forall_mem_singleton.2 (UInt32.le_trans (inTurn.items i old) after)

end Lists

namespace Assembly

/-! ## The invariant -/

/-- All paragraphs so far, the open one ending at the last line seen. -/
def ended (a : Assembly) : List Paragraph :=
  a.closedParagraphs ++ (a.openParagraph.map fun p => { p with endLine := max p.endLine a.lastLine }).toList

/-- What the assembly has recorded lies in order on lines up to `bound`. -/
structure InOrder (a : Assembly) (bound : LineNumber) : Prop where
  lastLine : a.lastLine ≤ bound
  paragraphs : Paragraph.InTurn a.ended bound
  sections : ∀ s ∈ a.sections, s.line ≤ bound
  items : ∀ s ∈ a.dataSections, s.InTurn bound
  calls : ∀ e ∈ a.calls, e.line ≤ bound

variable {a : Assembly} {bound line : LineNumber}

theorem start_inOrder (path : Path) (backend : Text) : (start path backend).InOrder 0 where
  lastLine := UInt32.le_refl 0
  paragraphs := ⟨fun _ member => absurd member List.not_mem_nil, List.Pairwise.nil⟩
  sections := fun _ member => absurd member List.not_mem_nil
  items := fun _ member => absurd member List.not_mem_nil
  calls := fun _ member => absurd member List.not_mem_nil

theorem InOrder.mono (inOrder : a.InOrder bound) (le : bound ≤ line) : a.InOrder line where
  lastLine := UInt32.le_trans inOrder.lastLine le
  paragraphs := inOrder.paragraphs.mono le
  sections := fun s member => UInt32.le_trans (inOrder.sections s member) le
  items := fun s member => (inOrder.items s member).mono le
  calls := fun e member => UInt32.le_trans (inOrder.calls e member) le

theorem ended_of_none (isClosed : a.openParagraph = none) : a.ended = a.closedParagraphs := by
  rw [ended, isClosed, Option.map_none, Option.toList_none, List.append_nil]

theorem closeParagraph_closedParagraphs (a : Assembly) : a.closeParagraph.closedParagraphs = a.ended := by
  cases isOpen : a.openParagraph with
  | none => rw [closeParagraph_of_none isOpen, ended_of_none isOpen]
  | some p => rw [closeParagraph_of_some isOpen, ended, isOpen]; rfl

theorem closeParagraph_inOrder (inOrder : a.InOrder bound) : a.closeParagraph.InOrder bound := by
  have ended : a.closeParagraph.ended = a.ended := by
    rw [ended_of_none (closeParagraph_openParagraph a), closeParagraph_closedParagraphs]
  have lastLine : a.closeParagraph.lastLine = a.lastLine := by unfold closeParagraph; split <;> rfl
  have dataSections : a.closeParagraph.dataSections = a.dataSections := by unfold closeParagraph; split <;> rfl
  exact ⟨lastLine ▸ inOrder.lastLine, ended ▸ inOrder.paragraphs, closeParagraph_sections a ▸ inOrder.sections,
    dataSections ▸ inOrder.items, closeParagraph_calls a ▸ inOrder.calls⟩

theorem closed_inOrder (inOrder : a.InOrder bound) : a.closed.InOrder bound := by
  have closing := closeParagraph_inOrder inOrder
  have sections : a.closed.sections = a.closeParagraph.sections := closeSection_sections _
  exact ⟨closing.lastLine, closing.paragraphs, sections ▸ closing.sections, closing.items, closing.calls⟩

/-! ## Events -/

/-- A line that is seen widens the open paragraph. -/
theorem observe_inOrder (inOrder : a.InOrder bound) (le : bound ≤ line) : (a.observe line).InOrder line := by
  have later := inOrder.mono le
  have seen : max a.lastLine line ≤ line := LineNumber.max_le later.lastLine (UInt32.le_refl line)
  refine ⟨seen, ?_, later.sections, later.items, later.calls⟩
  have paragraphs := inOrder.paragraphs
  unfold ended at paragraphs
  unfold ended observe
  dsimp only
  cases isOpen : a.openParagraph with
  | none =>
    rw [isOpen] at paragraphs
    exact paragraphs.mono le
  | some p =>
    simp only [isOpen, Option.map_some, Option.toList_some] at paragraphs ⊢
    have fits := paragraphs.fits _ (List.mem_append_right _ (List.mem_singleton_self _))
    have opened : p.endLine ≤ line :=
      UInt32.le_trans (LineNumber.left_le_max _ _) (UInt32.le_trans fits.last le)
    have further : max p.endLine a.lastLine ≤ max p.endLine (max a.lastLine line) :=
      LineNumber.max_le (LineNumber.left_le_max _ _)
        (UInt32.le_trans (LineNumber.left_le_max a.lastLine line) (LineNumber.right_le_max _ _))
    exact paragraphs.replace rfl (fits.widen further (LineNumber.max_le opened seen)) le

theorem enterDivision_inOrder (inOrder : a.InOrder bound) (le : bound ≤ line) (name : Text) :
    (a.enterDivision name line).InOrder line := by
  have closed := (closed_inOrder inOrder).mono le
  have noneOpen : (a.enterDivision name line).openParagraph = none := closed_openParagraph a
  have paragraphs := closed.paragraphs
  rw [ended_of_none (closed_openParagraph a)] at paragraphs
  refine ⟨UInt32.le_refl line, ?_, closed.sections, closed.items, closed.calls⟩
  rw [ended_of_none noneOpen]
  exact paragraphs

theorem enterDataSection_inOrder (inOrder : a.InOrder bound) (name : Text) :
    (a.enterDataSection name).InOrder bound := by
  refine ⟨inOrder.lastLine, inOrder.paragraphs, inOrder.sections, ?_, inOrder.calls⟩
  simp only [enterDataSection]
  split
  · exact inOrder.items
  · refine List.forall_mem_append.2 ⟨inOrder.items, List.forall_mem_singleton.2 ?_⟩
    exact ⟨fun i member => absurd member List.not_mem_nil, List.Pairwise.nil⟩

theorem enterProcedureSection_inOrder (inOrder : a.InOrder bound) (le : bound ≤ line) (name : Text) :
    (a.enterProcedureSection name line).InOrder line := by
  have closed := (closed_inOrder inOrder).mono le
  have noneOpen : (a.enterProcedureSection name line).openParagraph = none := closed_openParagraph a
  have paragraphs := closed.paragraphs
  rw [ended_of_none (closed_openParagraph a)] at paragraphs
  refine ⟨UInt32.le_refl line, ?_, ?_, closed.items, closed.calls⟩
  · rw [ended_of_none noneOpen]
    exact paragraphs
  · obtain ⟨earlier, -⟩ := List.forall_mem_append.1 closed.sections
    exact List.forall_mem_append.2 ⟨earlier, List.forall_mem_singleton.2 (UInt32.le_refl line)⟩

theorem fileItem_inOrder (inOrder : a.InOrder bound) {item : DataItem} (le : bound ≤ item.line) (current : Text) :
    (a.fileItem current item).InOrder item.line := by
  have observed := observe_inOrder inOrder le
  refine ⟨observed.lastLine, observed.paragraphs, observed.sections, fun s member => ?_, observed.calls⟩
  obtain ⟨old, known, rfl⟩ := List.mem_map.1 member
  split
  · have after : bound ≤ ({ item with name := Name.clean item.name } : DataItem).line := le
    exact (inOrder.items old known).append after
  · exact (inOrder.items old known).mono le

theorem enterParagraph_inOrder (inOrder : a.InOrder bound) (le : bound ≤ line) (name : Text) :
    (a.enterParagraph name line).InOrder line := by
  have closing := closeParagraph_inOrder inOrder
  have noneOpen := closeParagraph_openParagraph a
  unfold enterParagraph
  generalize a.closeParagraph = b at closing noneOpen
  have later := closing.mono le
  refine ⟨UInt32.le_refl line, ?_, fun s member => ?_, later.items, later.calls⟩
  · have paragraphs := closing.paragraphs
    rw [ended_of_none noneOpen] at paragraphs
    have only : max line line = line := LineNumber.max_self line
    simp only [ended, Option.map_some, Option.toList_some, only]
    exact paragraphs.append le
      ⟨UInt32.le_refl line, UInt32.le_refl line, fun s member => absurd member List.not_mem_nil, List.Pairwise.nil⟩
  · -- the section that is open has one name more, and its line is as before
    rcases List.mem_append.1 member with old | opened
    · exact later.sections s (List.mem_append_left _ old)
    · obtain ⟨current, isOpen, rfl⟩ := Option.map_eq_some_iff.1 (Option.mem_toList.1 opened)
      exact later.sections current (List.mem_append_right _ (Option.mem_toList.2 isOpen))

theorem appendStatement_inOrder (inOrder : a.InOrder bound) {s : Statement} (le : bound ≤ s.line) :
    (a.appendStatement s).InOrder s.line := by
  have later := inOrder.mono le
  unfold appendStatement
  split
  · exact later
  · rename_i p isOpen
    have seen : max a.lastLine s.line ≤ s.line := LineNumber.max_le later.lastLine (UInt32.le_refl _)
    have paragraphs := inOrder.paragraphs
    simp only [ended, isOpen, Option.map_some, Option.toList_some] at paragraphs
    refine ⟨seen, ?_, later.sections, later.items, ?_⟩
    · have fits := paragraphs.fits _ (List.mem_append_right _ (List.mem_singleton_self _))
      have opened : p.endLine ≤ s.line :=
        UInt32.le_trans (LineNumber.left_le_max _ _) (UInt32.le_trans fits.last le)
      have reaches : s.line ≤ max p.endLine (max a.lastLine s.line) :=
        UInt32.le_trans (LineNumber.right_le_max _ _) (LineNumber.right_le_max _ _)
      simp only [ended, observe, Option.map_some, Option.toList_some]
      exact paragraphs.replace rfl (fits.append le reaches (LineNumber.max_le opened seen)) le
    · intro e member
      simp only [observe] at member
      split at member
      · rcases List.mem_append.1 member with old | new
        · exact later.calls e old
        · rw [List.mem_singleton.1 new]
          exact UInt32.le_refl _
      · exact later.calls e member

/-! ## Runs -/

/-- An event of a line that is not above what was recorded keeps the order. -/
theorem step_inOrder (inOrder : a.InOrder bound) (le : bound ≤ line) {e : Event}
    (there : ∀ l, e.line? = some l → l = line) : (a.step e).InOrder line := by
  have later := inOrder.mono le
  have effect := step_effect a e
  generalize a.step e = b at effect ⊢
  cases effect with
  | ignored | named | counted =>
    exact ⟨later.lastLine, later.paragraphs, later.sections, later.items, later.calls⟩
  | observed l =>
    obtain rfl := there l rfl
    exact observe_inOrder inOrder le
  | division name l =>
    obtain rfl := there l rfl
    exact enterDivision_inOrder inOrder le name
  | dataSection name => exact enterDataSection_inOrder later name
  | procedureSection name l opens =>
    obtain rfl := there l opens.line?_eq
    exact enterProcedureSection_inOrder inOrder le name
  | item item current =>
    obtain rfl := there item.line rfl
    exact fileItem_inOrder inOrder le current
  | paragraph name l =>
    obtain rfl := there l rfl
    exact enterParagraph_inOrder inOrder le name
  | entry s =>
    obtain rfl := there s.line rfl
    exact appendStatement_inOrder (enterParagraph_inOrder inOrder le _) (UInt32.le_refl _)
  | statement s =>
    obtain rfl := there s.line rfl
    exact appendStatement_inOrder inOrder le

/-- Events whose lines do not fall keep the order. -/
theorem run_inOrder (inOrder : a.InOrder bound) {events : List Event} {last : LineNumber} (le : bound ≤ last)
    (rise : LineNumber.Rise (events.filterMap Event.line?) bound last) : (a.run events).InOrder last := by
  induction events generalizing a bound with
  | nil => exact inOrder.mono le
  | cons e events ih =>
    cases told : e.line? with
    | none =>
      rw [List.filterMap_cons_none told] at rise
      have silent : ∀ l, e.line? = some l → l = bound := fun l some => by rw [told] at some; cases some
      exact ih (step_inOrder inOrder (UInt32.le_refl bound) silent) le rise
    | some line =>
      rw [List.filterMap_cons_some told] at rise
      obtain ⟨below, rest⟩ := List.pairwise_cons.1 rise.ordered
      obtain ⟨above, upTo⟩ := rise.within line List.mem_cons_self
      have there : ∀ l, e.line? = some l → l = line := fun l some => Option.some.inj (some.symm.trans told)
      exact ih (step_inOrder inOrder above there) upTo
        ⟨rest, fun l member => ⟨below l member, (rise.within l (List.mem_cons_of_mem line member)).2⟩⟩

theorem finish_inOrder (inOrder : a.InOrder bound) : a.finish.InOrder bound := by
  have paragraphs : a.finish.paragraphs = a.ended := closeParagraph_closedParagraphs a
  exact ⟨paragraphs ▸ inOrder.paragraphs, inOrder.sections, inOrder.items, inOrder.calls⟩

end Assembly

end CobolAtlas
