/-
# CobolAtlas.Proofs.Program.Relabelling -- a program under other names and other line numbers

A `Relabelling` gives every name that is kept as it was written another name, and every line another number.
Division and section names are none of these: they are kept in upper case.  The entry paragraph is in no source
and keeps its name.

An assembly does not look at names and lines beyond what a lawful relabelling leaves alone: names are cleaned,
and lines are compared for the later one.  So the relabelled events make the relabelled program
(`step_relabel`, `run_relabel`, `finish_relabel`).  Lines need only be in order up to a bound that nothing seen
passes (`Within`), which leaves room for a shift that runs over at the last number.
-/
import CobolAtlas.Proofs.Program.Extents

namespace CobolAtlas

set_option autoImplicit false

/-- Other names and other line numbers. -/
structure Relabelling where
  name : Text → Text
  line : LineNumber → LineNumber

/-- The name of a paragraph; the entry paragraph keeps its own. -/
def Relabelling.paragraph (r : Relabelling) (name : Text) : Text :=
  if name = Program.entryParagraph then name else r.name name

/-! ## Records -/

def Statement.relabel (r : Relabelling) (s : Statement) : Statement :=
  { s with target := r.name s.target, thru := s.thru.map r.name, line := r.line s.line }

def Paragraph.relabel (r : Relabelling) (p : Paragraph) : Paragraph :=
  { p with
    name := r.paragraph p.name
    line := r.line p.line
    endLine := r.line p.endLine
    statements := p.statements.map (Statement.relabel r) }

def ProcedureSection.relabel (r : Relabelling) (s : ProcedureSection) : ProcedureSection :=
  { s with line := r.line s.line, paragraphs := s.paragraphs.map r.paragraph }

def DataItem.relabel (r : Relabelling) (i : DataItem) : DataItem :=
  { i with name := r.name i.name, picture := i.picture.map r.name, line := r.line i.line }

def DataSection.relabel (r : Relabelling) (s : DataSection) : DataSection :=
  { s with items := s.items.map (DataItem.relabel r) }

def CallEdge.relabel (r : Relabelling) (e : CallEdge) : CallEdge :=
  { e with fromParagraph := r.paragraph e.fromParagraph, line := r.line e.line, toProgram := r.name e.toProgram }

/-- The program under the new names and lines.  A name that was not declared is that of the file and stays. -/
def Program.relabel (r : Relabelling) (p : Program) : Program :=
  { p with
    id := if p.declaresId then r.name p.id else p.id
    dataSections := p.dataSections.map (DataSection.relabel r)
    sections := p.sections.map (ProcedureSection.relabel r)
    paragraphs := p.paragraphs.map (Paragraph.relabel r)
    calls := p.calls.map (CallEdge.relabel r) }

/-- The event as it is reported under the new names and lines. -/
def Event.relabel (r : Relabelling) : Event → Event
  | .programId name => .programId (r.name name)
  | .division name line => .division (r.name name) (r.line line)
  | .sectionHeader name line => .sectionHeader (r.name name) (r.line line)
  | .dataSection name => .dataSection (r.name name)
  | .procedureSection name line => .procedureSection (r.name name) (r.line line)
  | .dataItem item => .dataItem (item.relabel r)
  | .paragraph name line => .paragraph (r.name name) (r.line line)
  | .statement s => .statement (s.relabel r)
  | .observe line => .observe (r.line line)
  | .syntaxErrors count => .syntaxErrors count

def Assembly.relabel (r : Relabelling) (a : Assembly) : Assembly :=
  { a with
    id := if a.declaresId then r.name a.id else a.id
    dataSections := a.dataSections.map (DataSection.relabel r)
    closedSections := a.closedSections.map (ProcedureSection.relabel r)
    openSection := a.openSection.map (ProcedureSection.relabel r)
    closedParagraphs := a.closedParagraphs.map (Paragraph.relabel r)
    openParagraph := a.openParagraph.map (Paragraph.relabel r)
    calls := a.calls.map (CallEdge.relabel r)
    lastLine := r.line a.lastLine }

namespace Relabelling

/-- Cleaning a name and naming it anew may change places, names of divisions and sections do not show the
change, and lines up to `bound` keep their order. -/
structure Lawful (r : Relabelling) (bound : LineNumber) : Prop where
  clean : ∀ name, Name.clean (r.name name) = r.name (Name.clean name)
  ofDivision : ∀ name, Name.ofDivision (r.name name) = Name.ofDivision name
  ofSection : ∀ name, Name.ofSection (r.name name) = Name.ofSection name
  isEmpty : ∀ name, (r.name name).isEmpty = name.isEmpty
  line : ∀ l m, l ≤ m → m ≤ bound → r.line l ≤ r.line m

/-- No paragraph is opened under the name that the entry paragraph keeps. -/
def Suits (r : Relabelling) : Event → Prop
  | .paragraph name _ => r.paragraph (Name.clean name) = r.name (Name.clean name)
  | _ => True

variable {r : Relabelling} {bound : LineNumber}

theorem paragraph_entry (r : Relabelling) : r.paragraph Program.entryParagraph = Program.entryParagraph :=
  if_pos rfl

theorem Lawful.max (lawful : r.Lawful bound) {l m : LineNumber} (left : l ≤ bound) (right : m ≤ bound) :
    r.line (Max.max l m) = Max.max (r.line l) (r.line m) := by
  rw [LineNumber.max_eq, LineNumber.max_eq]
  split
  · rename_i le
    rw [if_pos (lawful.line l m le right)]
  · rename_i above
    have ge : m ≤ l := UInt32.le_of_lt (UInt32.not_le.1 above)
    have ordered : r.line m ≤ r.line l := lawful.line m l ge left
    split
    · rename_i le
      exact UInt32.le_antisymm ordered le |>.symm
    · rfl

end Relabelling

namespace Assembly

variable {r : Relabelling} {a : Assembly} {bound line : LineNumber}

/-! ## Lines that were seen -/

/-- No line that may still be compared passes the bound. -/
structure Within (a : Assembly) (bound : LineNumber) : Prop where
  lastLine : a.lastLine ≤ bound
  endLine : ∀ p ∈ a.openParagraph, p.endLine ≤ bound

theorem start_within (path : Path) (backend : Text) (bound : LineNumber) : (start path backend).Within bound :=
  ⟨UInt32.le_iff_toNat_le.2 (Nat.zero_le _), nofun⟩

/-- Where nothing is open, only the last line counts. -/
theorem within_of_none (noneOpen : a.openParagraph = none) (lastLine : a.lastLine ≤ bound) : a.Within bound :=
  ⟨lastLine, fun p isOpen => by rw [noneOpen] at isOpen; cases isOpen⟩

theorem observe_within (within : a.Within bound) (seen : line ≤ bound) : (a.observe line).Within bound :=
  ⟨LineNumber.max_le within.lastLine seen, within.endLine⟩

theorem enterParagraph_within (seen : line ≤ bound) (a : Assembly) (name : Text) :
    (a.enterParagraph name line).Within bound := by
  unfold enterParagraph
  generalize Name.clean name = name
  refine ⟨seen, fun p isOpen => ?_⟩
  cases isOpen
  exact seen

theorem appendStatement_within (within : a.Within bound) {s : Statement} (seen : s.line ≤ bound) :
    (a.appendStatement s).Within bound := by
  unfold appendStatement
  split
  · exact within
  · rename_i p isOpen
    refine observe_within ⟨within.lastLine, fun q new => ?_⟩ seen
    cases new
    exact within.endLine p isOpen

theorem step_within (within : a.Within bound) {e : Event} (seen : ∀ l ∈ e.line?, l ≤ bound) :
    (a.step e).Within bound := by
  have effect := step_effect a e
  generalize a.step e = b at effect ⊢
  cases effect with
  | ignored | named | counted | dataSection => exact ⟨within.lastLine, within.endLine⟩
  | observed line => exact observe_within within (seen line rfl)
  | division name line => exact within_of_none (closeParagraph_openParagraph a) (seen line rfl)
  | procedureSection name line opens =>
    exact within_of_none (closeParagraph_openParagraph a) (seen line opens.line?_eq)
  | item item => exact observe_within ⟨within.lastLine, within.endLine⟩ (seen item.line rfl)
  | paragraph name line => exact enterParagraph_within (seen line rfl) a name
  | entry s => exact appendStatement_within (enterParagraph_within (seen s.line rfl) a _) (seen s.line rfl)
  | statement s => exact appendStatement_within within (seen s.line rfl)

/-! ## One event -/

@[simp] theorem relabel_sections (r : Relabelling) (a : Assembly) :
    (a.relabel r).sections = a.sections.map (ProcedureSection.relabel r) := by
  cases isOpen : a.openSection <;> simp [sections, relabel, isOpen]

theorem observe_relabel (lawful : r.Lawful bound) (within : a.Within bound) (seen : line ≤ bound) :
    (a.relabel r).observe (r.line line) = (a.observe line).relabel r := by
  rw [observe, observe, relabel, relabel, lawful.max within.lastLine seen]

theorem closeParagraph_relabel (lawful : r.Lawful bound) (within : a.Within bound) :
    (a.relabel r).closeParagraph = a.closeParagraph.relabel r := by
  cases isOpen : a.openParagraph with
  | none =>
    have isClosed : (a.relabel r).openParagraph = none := by simp [relabel, isOpen]
    rw [closeParagraph_of_none isOpen, closeParagraph_of_none isClosed]
  | some p =>
    have opened : (a.relabel r).openParagraph = some (p.relabel r) := by simp [relabel, isOpen]
    rw [closeParagraph_of_some isOpen, closeParagraph_of_some opened]
    simp [relabel, Paragraph.relabel, lawful.max (within.endLine p isOpen) within.lastLine]

theorem closeSection_relabel (r : Relabelling) (a : Assembly) :
    (a.relabel r).closeSection = a.closeSection.relabel r := by
  rw [closeSection, relabel_sections]
  rfl

theorem closed_relabel (lawful : r.Lawful bound) (within : a.Within bound) :
    (a.relabel r).closed = a.closed.relabel r := by
  rw [closed, closeParagraph_relabel lawful within, closeSection_relabel, closed]

theorem setProgramId_relabel (lawful : r.Lawful bound) (a : Assembly) (name : Text) :
    (a.relabel r).setProgramId (r.name name) = (a.setProgramId name).relabel r := by
  simp only [setProgramId, lawful.clean, lawful.isEmpty]
  generalize Name.clean name = id
  show (if a.declaresId || id.isEmpty then a.relabel r else _) = _
  split <;> rfl

theorem enterDivision_relabel (lawful : r.Lawful bound) (within : a.Within bound) (name : Text) (line : LineNumber) :
    (a.relabel r).enterDivision (r.name name) (r.line line) = (a.enterDivision name line).relabel r := by
  have closed : (a.relabel r).closeParagraph.closeSection = a.closeParagraph.closeSection.relabel r :=
    closed_relabel lawful within
  simp only [enterDivision, closed, lawful.ofDivision]
  rfl

theorem enterDataSection_relabel (lawful : r.Lawful bound) (a : Assembly) (name : Text) :
    (a.relabel r).enterDataSection (r.name name) = (a.enterDataSection name).relabel r := by
  have known (s : Text) : ((a.relabel r).dataSections.any fun d => d.name == s) =
      a.dataSections.any fun d => d.name == s := List.any_map
  simp only [enterDataSection, known, lawful.ofSection]
  generalize Name.ofSection name = name
  simp only [relabel]
  congr 1
  split
  · rfl
  · rw [List.map_append]
    rfl

theorem enterProcedureSection_relabel (lawful : r.Lawful bound) (within : a.Within bound) (name : Text)
    (line : LineNumber) :
    (a.relabel r).enterProcedureSection (r.name name) (r.line line) =
      (a.enterProcedureSection name line).relabel r := by
  have closed : (a.relabel r).closeParagraph.closeSection = a.closeParagraph.closeSection.relabel r :=
    closed_relabel lawful within
  simp only [enterProcedureSection, closed, lawful.ofSection]
  generalize Name.ofSection name = name
  rfl

theorem enterSection_relabel (lawful : r.Lawful bound) (within : a.Within bound) (name : Text) (line : LineNumber) :
    (a.relabel r).enterSection (r.name name) (r.line line) = (a.enterSection name line).relabel r := by
  have division : (a.relabel r).division = a.division := rfl
  simp only [enterSection, division]
  split
  · exact enterDataSection_relabel lawful a name
  · split
    · exact enterProcedureSection_relabel lawful within name line
    · rfl

theorem addDataItem_relabel (lawful : r.Lawful bound) (within : a.Within bound) {item : DataItem}
    (seen : item.line ≤ bound) : (a.relabel r).addDataItem (item.relabel r) = (a.addDataItem item).relabel r := by
  have current : (a.relabel r).dataSection = a.dataSection := rfl
  unfold addDataItem
  rw [current]
  split
  · rfl
  · rename_i name _
    have filled : ∀ s : DataSection,
        (if (s.relabel r).name = name then
          { s.relabel r with items := (s.relabel r).items ++
              [{ item.relabel r with name := Name.clean (item.relabel r).name }] } else s.relabel r) =
        (if s.name = name then { s with items := s.items ++ [{ item with name := Name.clean item.name }] }
          else s).relabel r := by
      intro s
      show (if s.name = name then _ else _) = _
      split <;> simp [DataSection.relabel, DataItem.relabel, lawful.clean]
    simp only [observe, relabel, DataItem.relabel, lawful.max within.lastLine seen, List.map_map]
    congr 1
    exact List.map_congr_left fun s _ => filled s

/-- A paragraph opens under a name that is told as `name` and kept as `kept`. -/
theorem enterParagraph_relabel (lawful : r.Lawful bound) (within : a.Within bound) {told name : Text}
    (kept : Name.clean told = r.paragraph (Name.clean name)) (line : LineNumber) :
    (a.relabel r).enterParagraph told (r.line line) = (a.enterParagraph name line).relabel r := by
  simp only [enterParagraph, closeParagraph_relabel lawful within, kept]
  generalize a.closeParagraph = b
  cases isOpen : b.openSection <;> simp [relabel, isOpen, ProcedureSection.relabel, Paragraph.relabel]

theorem appendStatement_relabel (lawful : r.Lawful bound) (within : a.Within bound) {s : Statement}
    (seen : s.line ≤ bound) : (a.relabel r).appendStatement (s.relabel r) = (a.appendStatement s).relabel r := by
  cases isOpen : a.openParagraph with
  | none => simp [appendStatement, relabel, isOpen]
  | some p =>
    have last : r.line (max a.lastLine s.line) = max (r.line a.lastLine) (r.line s.line) :=
      lawful.max within.lastLine seen
    by_cases isCall : s.kind = .call <;>
      simp [appendStatement, observe, relabel, isOpen, Paragraph.relabel, Statement.relabel, CallEdge.relabel, edge,
        isCall, last]

theorem addStatement_relabel (lawful : r.Lawful bound) (within : a.Within bound) {s : Statement}
    (seen : s.line ≤ bound) : (a.relabel r).addStatement (s.relabel r) = (a.addStatement s).relabel r := by
  have entry : Name.clean Program.entryParagraph = r.paragraph (Name.clean Program.entryParagraph) := by
    have clean : Name.clean Program.entryParagraph = Program.entryParagraph := by decide
    rw [clean, r.paragraph_entry]
  have isNone : (a.relabel r).openParagraph.isNone = a.openParagraph.isNone := Option.isNone_map
  have inProcedure : (a.relabel r).inProcedure = a.inProcedure := rfl
  simp only [addStatement, isNone, inProcedure]
  split
  · have opened : (a.relabel r).enterParagraph Program.entryParagraph (s.relabel r).line =
        (a.enterParagraph Program.entryParagraph s.line).relabel r := enterParagraph_relabel lawful within entry s.line
    rw [opened]
    exact appendStatement_relabel lawful (enterParagraph_within seen a _) seen
  · exact appendStatement_relabel lawful within seen

/-- A relabelled event makes the relabelled assembly. -/
theorem step_relabel (lawful : r.Lawful bound) (within : a.Within bound) {e : Event}
    (seen : ∀ l ∈ e.line?, l ≤ bound) (suits : r.Suits e) :
    (a.relabel r).step (e.relabel r) = (a.step e).relabel r := by
  cases e with
  | programId name => exact setProgramId_relabel lawful a name
  | division name line => exact enterDivision_relabel lawful within name line
  | sectionHeader name line => exact enterSection_relabel lawful within name line
  | dataSection name => exact enterDataSection_relabel lawful a name
  | procedureSection name line => exact enterProcedureSection_relabel lawful within name line
  | dataItem item => exact addDataItem_relabel lawful within (seen item.line rfl)
  | paragraph name line =>
    have kept : Name.clean (r.name name) = r.paragraph (Name.clean name) := (lawful.clean name).trans (Eq.symm suits)
    exact enterParagraph_relabel lawful within kept line
  | statement s => exact addStatement_relabel lawful within (seen s.line rfl)
  | observe line => exact observe_relabel lawful within (seen line rfl)
  | syntaxErrors count => rfl

/-! ## Runs -/

theorem run_relabel (lawful : r.Lawful bound) (within : a.Within bound) {events : List Event}
    (seen : ∀ e ∈ events, ∀ l ∈ e.line?, l ≤ bound) (suits : ∀ e ∈ events, r.Suits e) :
    (a.relabel r).run (events.map (Event.relabel r)) = (a.run events).relabel r ∧ (a.run events).Within bound := by
  induction events generalizing a with
  | nil => exact ⟨rfl, within⟩
  | cons e events ih =>
    have here := step_relabel lawful within (seen e List.mem_cons_self) (suits e List.mem_cons_self)
    rw [List.map_cons, run_cons, here]
    exact ih (step_within within (seen e List.mem_cons_self)) (fun f member => seen f (List.mem_cons_of_mem e member))
      fun f member => suits f (List.mem_cons_of_mem e member)

theorem start_relabel (path : Path) (backend : Text) (zero : r.line 0 = 0) :
    (start path backend).relabel r = start path backend := by
  simp [relabel, start, zero]

theorem finish_relabel (lawful : r.Lawful bound) (within : a.Within bound) :
    (a.relabel r).finish = a.finish.relabel r := by
  simp only [finish, closeParagraph_relabel lawful within, relabel_sections]
  rfl

end Assembly

end CobolAtlas
