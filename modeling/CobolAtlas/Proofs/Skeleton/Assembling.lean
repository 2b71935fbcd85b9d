/-
# CobolAtlas.Proofs.Skeleton.Assembling -- what the events of a skeleton add up to

Each part of a skeleton adds its own record to an assembly and leaves the rest as it was, whatever was
assembled before it: an item to the current data section (`run_items`), a data section to the data
sections (`run_dataSections`), a paragraph with its statements to the closed paragraphs once it is closed
(`run_paragraphs`), a procedure section with its paragraphs once both are closed (`run_sections`).  What
the runs leave open is only the last line seen and the edges; the edges follow from the statements.
So the whole skeleton adds up to `Skeleton.program` (`finish_run_events`).
-/
import CobolAtlas.Proofs.Program.Extents
import CobolAtlas.Proofs.Skeleton.Reading

namespace CobolAtlas.Skeleton

set_option autoImplicit false

open Assembly

/-! ## Events -/

/-- What constructs report that stand one on a line, from `line` on. -/
def eventsFrom : Nat → List Construct → List Event
  | _, [] => []
  | line, c :: cs => c.events line ++ eventsFrom (line + 1) cs

theorem eventsFrom_append (line : Nat) (cs ds : List Construct) :
    eventsFrom line (cs ++ ds) = eventsFrom line cs ++ eventsFrom (line + cs.length) ds := by
  induction cs generalizing line with
  | nil => rfl
  | cons c cs ih =>
    have further : line + 1 + cs.length = line + (c :: cs).length := by rw [List.length_cons]; omega
    rw [List.cons_append, eventsFrom, eventsFrom, ih, further, List.append_assoc]

theorem run_eventsFrom_cons (a : Assembly) (line : Nat) (c : Construct) (cs : List Construct) :
    a.run (eventsFrom line (c :: cs)) = (a.run (c.events line)).run (eventsFrom (line + 1) cs) :=
  run_append a _ _

theorem run_eventsFrom_append (a : Assembly) (line : Nat) (cs ds : List Construct) :
    a.run (eventsFrom line (cs ++ ds)) =
      (a.run (eventsFrom line cs)).run (eventsFrom (line + cs.length) ds) := by
  rw [eventsFrom_append, run_append]

theorem length_flatMap {α : Type} {constructs : α → List Construct} {height : α → Nat}
    (heights : ∀ x, (constructs x).length = height x) (xs : List α) :
    (xs.flatMap constructs).length = totalHeight height xs := by
  induction xs with
  | nil => rfl
  | cons x xs ih => rw [List.flatMap_cons, List.length_append, heights, ih, totalHeight]

theorem DataPart.length_constructs (s : DataPart) : s.constructs.length = s.height := by
  simp [constructs, height, Nat.add_comm]

theorem ParagraphPart.length_constructs (p : ParagraphPart) : p.constructs.length = p.height := by
  simp [constructs, height, Nat.add_comm]

theorem ProcedurePart.length_constructs (s : ProcedurePart) : s.constructs.length = s.height := by
  have paragraphs := length_flatMap ParagraphPart.length_constructs s.paragraphs
  rw [constructs, List.length_cons, paragraphs, height, Nat.add_comm]

/-! ## Data sections -/

section Data

variable {a : Assembly} {before : List DataSection} {name : Text}

/-- The section that is current is the last of its name. -/
theorem addDataItem_last {items : List DataItem} (other : ∀ s ∈ before, s.name ≠ name)
    (here : a.dataSections = before ++ [⟨name, items⟩]) (current : a.dataSection = some name)
    (item : DataItem) (clean : Name.clean item.name = item.name) :
    a.addDataItem item =
      { a with dataSections := before ++ [⟨name, items ++ [item]⟩], lastLine := max a.lastLine item.line } := by
  have unchanged : (before.map fun s => if s.name = name then { s with items := s.items ++ [item] } else s) =
      before := by
    refine (List.map_congr_left fun s member => ?_).trans (List.map_id before)
    exact if_neg (other s member)
  have same : { item with name := Name.clean item.name } = item := by rw [clean]
  simp only [addDataItem, current, same, here, observe, List.map_append, unchanged, List.map_cons, List.map_nil,
    if_true]

theorem run_items (other : ∀ s ∈ before, s.name ≠ name) (items : List Item) (line : Nat)
    (done : List DataItem) (here : a.dataSections = before ++ [⟨name, done⟩])
    (current : a.dataSection = some name) :
    ∃ last, a.run (eventsFrom line (items.map .item)) =
      { a with
        dataSections := before ++ [⟨name, done ++ numbered (fun _ => 1) Item.record line items⟩]
        lastLine := last } := by
  induction items generalizing a line done with
  | nil =>
    refine ⟨a.lastLine, ?_⟩
    have whole : before ++ [⟨name, done ++ []⟩] = a.dataSections := by rw [here, List.append_nil]
    simp only [List.map_nil, eventsFrom, numbered, run_nil, whole]
  | cons i items ih =>
    have added := addDataItem_last other here current (i.record line) i.name.clean_text
    obtain ⟨last, run⟩ := ih (a := a.addDataItem (i.record line)) (line + 1) (done ++ [i.record line])
      (by rw [added]) (by rw [added]; exact current)
    refine ⟨last, ?_⟩
    have first : a.run ((Construct.item i).events line) = a.addDataItem (i.record line) := rfl
    rw [List.map_cons, run_eventsFrom_cons, first, run, added, numbered, List.append_assoc]
    rfl

/-- A section of a new name is listed last and becomes current. -/
theorem run_dataSection (s : DataPart) (line : Nat) (inData : a.division = some Division.data.name)
    (new : ∀ t ∈ a.dataSections, t.name ≠ Text.upperAscii s.name.text) :
    ∃ last, a.run (eventsFrom line s.constructs) =
      { a with
        dataSections := a.dataSections ++ [s.record line]
        dataSection := some (Text.upperAscii s.name.text)
        lastLine := last } := by
  have absent : (a.dataSections.any fun t => t.name == Text.upperAscii s.name.text) = false := by
    rw [List.any_eq_false]
    intro t member
    simpa using new t member
  have entered : a.run ((Construct.sectionHeader s.name).events line) =
      { a with
        dataSections := a.dataSections ++ [⟨Text.upperAscii s.name.text, []⟩]
        dataSection := some (Text.upperAscii s.name.text) } := by
    have isData : a.division = some "DATA".toList := inData
    show a.enterSection s.name.text (UInt32.ofNat line) = _
    rw [enterSection, if_pos isData, enterDataSection, s.name.ofSection_text]
    simp only [absent, Bool.false_eq_true, if_false]
  obtain ⟨last, run⟩ := run_items (a := a.run ((Construct.sectionHeader s.name).events line)) new s.items (line + 1)
    [] (by rw [entered]) (by rw [entered])
  refine ⟨last, ?_⟩
  rw [DataPart.constructs, run_eventsFrom_cons, run, entered, List.nil_append]
  rfl

theorem run_dataSections (sections : List DataPart) (line : Nat)
    (inData : a.division = some Division.data.name)
    (new : ∀ s ∈ sections, ∀ t ∈ a.dataSections, t.name ≠ Text.upperAscii s.name.text)
    (distinct : (sections.map fun s => Text.upperAscii s.name.text).Nodup) :
    ∃ current last, a.run (eventsFrom line (sections.flatMap (·.constructs))) =
      { a with
        dataSections := a.dataSections ++ numbered DataPart.height DataPart.record line sections
        dataSection := current
        lastLine := last } := by
  induction sections generalizing a line with
  | nil =>
    refine ⟨a.dataSection, a.lastLine, ?_⟩
    simp only [List.flatMap_nil, eventsFrom, numbered, run_nil, List.append_nil]
  | cons s sections ih =>
    rw [List.map_cons, List.nodup_cons] at distinct
    obtain ⟨fresh, distinct⟩ := distinct
    obtain ⟨last, first⟩ := run_dataSection s line inData (new s List.mem_cons_self)
    have new' : ∀ u ∈ sections, ∀ t ∈ (a.run (eventsFrom line s.constructs)).dataSections,
        t.name ≠ Text.upperAscii u.name.text := by
      intro u among t member
      rw [first] at member
      rcases List.mem_append.1 member with earlier | here
      · exact new u (List.mem_cons_of_mem s among) t earlier
      · rw [List.mem_singleton.1 here]
        intro same
        exact fresh (List.mem_map.2 ⟨u, among, same.symm⟩)
    obtain ⟨current', last', rest⟩ := ih (a := a.run (eventsFrom line s.constructs)) (line + s.height)
      (by rw [first]; exact inData) new' distinct
    refine ⟨current', last', ?_⟩
    rw [List.flatMap_cons, run_eventsFrom_append, s.length_constructs, rest, first, numbered, List.append_assoc]
    rfl

end Data

/-! ## Paragraphs -/

section Procedure

variable {a : Assembly}

/-- A statement and the sight of its line. -/
theorem run_transfer {p : Paragraph} (isOpen : a.openParagraph = some p) (t : Transfer) (line : Nat) :
    ∃ calls, a.run ((Construct.transfer t).events line) =
      { a with
        openParagraph := some { p with statements := p.statements ++ [t.record line] }
        calls := calls
        lastLine := max a.lastLine (t.record line).line } := by
  have line_eq : (t.record line).line = UInt32.ofNat line := by cases t <;> rfl
  refine ⟨(a.appendStatement (t.record line)).calls, ?_⟩
  show (a.addStatement (t.record line)).observe (UInt32.ofNat line) = _
  rw [addStatement, isOpen, Option.isNone_some, Bool.false_and, if_neg (by decide), appendStatement, isOpen, ← line_eq]
  simp only [observe, LineNumber.max_max_self]

theorem run_transfers (ts : List Transfer) (line : Nat) {p : Paragraph} (isOpen : a.openParagraph = some p) :
    ∃ calls, a.run (eventsFrom line (ts.map .transfer)) =
      { a with
        openParagraph :=
          some { p with statements := p.statements ++ numbered (fun _ => 1) Transfer.record line ts }
        calls := calls
        lastLine := ((numbered (fun _ => 1) Transfer.record line ts).map (·.line)).foldl max a.lastLine } := by
  induction ts generalizing a line p with
  | nil =>
    refine ⟨a.calls, ?_⟩
    obtain ⟨⟩ := a
    simp only at isOpen
    simp only [List.map_nil, eventsFrom, numbered, run_nil, List.append_nil, List.foldl_nil, isOpen]
  | cons t ts ih =>
    obtain ⟨calls, first⟩ := run_transfer isOpen t line
    obtain ⟨calls', rest⟩ := ih (a := a.run ((Construct.transfer t).events line)) (line + 1)
      (p := { p with statements := p.statements ++ [t.record line] }) (by rw [first])
    refine ⟨calls', ?_⟩
    rw [List.map_cons, run_eventsFrom_cons, rest, first]
    simp only [numbered, List.append_assoc, List.singleton_append, List.map_cons, List.foldl_cons]

/-- A paragraph is recorded once it is closed. -/
theorem run_paragraph (p : ParagraphPart) (line : Nat) (isClosed : a.openParagraph = none) :
    ∃ calls last, (a.run (eventsFrom line p.constructs)).closeParagraph =
      { a with
        openSection := a.openSection.map fun s => { s with paragraphs := s.paragraphs ++ [p.name.text] }
        closedParagraphs := a.closedParagraphs ++ [p.record (a.openSection.map (·.name)) line]
        calls := calls
        lastLine := last } := by
  have entered : a.run ((Construct.paragraph p.name).events line) =
      { a with
        openSection := a.openSection.map fun s => { s with paragraphs := s.paragraphs ++ [p.name.text] }
        openParagraph := some ⟨p.name.text, a.openSection.map (·.name), UInt32.ofNat line, UInt32.ofNat line, []⟩
        lastLine := UInt32.ofNat line } := by
    show a.enterParagraph p.name.text (UInt32.ofNat line) = _
    rw [enterParagraph, closeParagraph_of_none isClosed, p.name.clean_text]
  obtain ⟨calls, run⟩ := run_transfers (a := a.run ((Construct.paragraph p.name).events line)) p.transfers (line + 1)
    (by rw [entered])
  refine ⟨calls, ((p.statements line).map (·.line)).foldl max (UInt32.ofNat line), ?_⟩
  rw [ParagraphPart.constructs, run_eventsFrom_cons, closeParagraph_of_some (by rw [run]), run, entered]
  simp only [List.nil_append, LineNumber.max_foldl_max]
  obtain ⟨⟩ := a
  simp only at isClosed
  subst isClosed
  rfl

/-- The header of the first paragraph closes what is open. -/
theorem closeParagraph_run_paragraphs (a : Assembly) (ps : List ParagraphPart) (line : Nat) :
    (a.closeParagraph.run (eventsFrom line (ps.flatMap (·.constructs)))).closeParagraph =
      (a.run (eventsFrom line (ps.flatMap (·.constructs)))).closeParagraph := by
  cases ps with
  | nil => exact closeParagraph_closeParagraph a
  | cons p ps =>
    have entered : a.closeParagraph.run ((Construct.paragraph p.name).events line) =
        a.run ((Construct.paragraph p.name).events line) := enterParagraph_closeParagraph a _ _
    rw [List.flatMap_cons, ParagraphPart.constructs, List.cons_append, run_eventsFrom_cons, entered,
      ← run_eventsFrom_cons]

theorem run_paragraphs (ps : List ParagraphPart) (line : Nat) (isClosed : a.openParagraph = none) :
    ∃ calls last, (a.run (eventsFrom line (ps.flatMap (·.constructs)))).closeParagraph =
      { a with
        openSection := a.openSection.map fun s => { s with paragraphs := s.paragraphs ++ ps.map (·.name.text) }
        closedParagraphs := a.closedParagraphs ++
          numbered ParagraphPart.height (ParagraphPart.record (a.openSection.map (·.name))) line ps
        calls := calls
        lastLine := last } := by
  induction ps generalizing a line with
  | nil =>
    refine ⟨a.calls, a.lastLine, ?_⟩
    have same : (a.openSection.map fun s => (⟨s.name, s.line, s.paragraphs⟩ : ProcedureSection)) = a.openSection :=
      Option.map_id'
    simp only [List.flatMap_nil, eventsFrom, run_nil, closeParagraph_of_none isClosed, List.map_nil, numbered,
      List.append_nil]
    rw [same]
  | cons p ps ih =>
    obtain ⟨calls, last, first⟩ := run_paragraph p line isClosed
    obtain ⟨calls', last', rest⟩ := ih (a := (a.run (eventsFrom line p.constructs)).closeParagraph) (line + p.height)
      (closeParagraph_openParagraph _)
    refine ⟨calls', last', ?_⟩
    rw [List.flatMap_cons, run_eventsFrom_append, p.length_constructs, ← closeParagraph_run_paragraphs, rest, first]
    simp only [Option.map_map, Function.comp_def, List.append_assoc, List.singleton_append, List.map_cons, numbered]

/-! ## Procedure sections -/

theorem run_section (s : ProcedurePart) (line : Nat) (inProcedure : a.division = some Division.procedure.name)
    (noParagraph : a.openParagraph = none) (noSection : a.openSection = none) :
    ∃ calls last, (a.run (eventsFrom line s.constructs)).closed =
      { a with
        closedSections := a.closedSections ++ [s.record line]
        closedParagraphs := a.closedParagraphs ++ s.paragraphRecords line
        calls := calls
        lastLine := last } := by
  have entered : a.run ((Construct.sectionHeader s.name).events line) =
      { a with
        openSection := some ⟨Text.upperAscii s.name.text, UInt32.ofNat line, []⟩
        lastLine := UInt32.ofNat line } := by
    have notData : a.division ≠ some "DATA".toList := by rw [inProcedure]; decide
    have isProcedure : a.division = some "PROCEDURE".toList := inProcedure
    show a.enterSection s.name.text (UInt32.ofNat line) = _
    rw [enterSection, if_neg notData, if_pos isProcedure, enterProcedureSection, closeParagraph_of_none noParagraph,
      closeSection_of_none noSection, s.name.ofSection_text]
  obtain ⟨calls, last, run⟩ := run_paragraphs (a := a.run ((Construct.sectionHeader s.name).events line)) s.paragraphs
    (line + 1) (by rw [entered]; exact noParagraph)
  refine ⟨calls, last, ?_⟩
  rw [ProcedurePart.constructs, run_eventsFrom_cons, closed, run, entered]
  obtain ⟨⟩ := a
  simp only at noSection
  subst noSection
  rfl

theorem closed_run_sections (sections : List ProcedurePart) (line : Nat)
    (inProcedure : a.division = some Division.procedure.name) :
    (a.closed.run (eventsFrom line (sections.flatMap (·.constructs)))).closed =
      (a.run (eventsFrom line (sections.flatMap (·.constructs)))).closed := by
  cases sections with
  | nil => exact closed_closed a
  | cons s sections =>
    have entered : a.closed.run ((Construct.sectionHeader s.name).events line) =
        a.run ((Construct.sectionHeader s.name).events line) := by
      have notData : a.division ≠ some "DATA".toList := by rw [inProcedure]; decide
      have isProcedure : a.division = some "PROCEDURE".toList := inProcedure
      have kept : a.closed.division = a.division := closeParagraph_division a
      show a.closed.enterSection s.name.text (UInt32.ofNat line) = a.enterSection s.name.text (UInt32.ofNat line)
      rw [enterSection, enterSection, kept, if_neg notData, if_neg notData, if_pos isProcedure, if_pos isProcedure,
        enterProcedureSection_closed]
    rw [List.flatMap_cons, ProcedurePart.constructs, List.cons_append, run_eventsFrom_cons, entered,
      ← run_eventsFrom_cons]

theorem run_sections (sections : List ProcedurePart) (line : Nat)
    (inProcedure : a.division = some Division.procedure.name)
    (noParagraph : a.openParagraph = none) (noSection : a.openSection = none) :
    ∃ calls last, (a.run (eventsFrom line (sections.flatMap (·.constructs)))).closed =
      { a with
        closedSections := a.closedSections ++ numbered ProcedurePart.height ProcedurePart.record line sections
        closedParagraphs := a.closedParagraphs ++
          (numbered ProcedurePart.height ProcedurePart.paragraphRecords line sections).flatten
        calls := calls
        lastLine := last } := by
  induction sections generalizing a line with
  | nil =>
    refine ⟨a.calls, a.lastLine, ?_⟩
    simp only [List.flatMap_nil, eventsFrom, run_nil, closed_of_none noParagraph noSection, numbered,
      List.flatten_nil, List.append_nil]
  | cons s sections ih =>
    obtain ⟨calls, last, first⟩ := run_section s line inProcedure noParagraph noSection
    have inProcedure' : (a.run (eventsFrom line s.constructs)).division = some Division.procedure.name := by
      have kept : (a.run (eventsFrom line s.constructs)).closed.division = a.division := by rw [first]
      rw [← inProcedure, ← kept]
      exact (closeParagraph_division _).symm
    obtain ⟨calls', last', rest⟩ := ih (a := (a.run (eventsFrom line s.constructs)).closed) (line + s.height)
      (by rw [first]; exact inProcedure) (closed_openParagraph _) (closed_openSection _)
    refine ⟨calls', last', ?_⟩
    rw [List.flatMap_cons, run_eventsFrom_append, s.length_constructs, ← closed_run_sections _ _ inProcedure', rest,
      first]
    simp only [numbered, List.append_assoc, List.singleton_append, List.flatten_cons]

/-- Paragraphs outside sections, then sections. -/
theorem run_procedure (ps : List ParagraphPart) (sections : List ProcedurePart) (line : Nat)
    (inProcedure : a.division = some Division.procedure.name)
    (noParagraph : a.openParagraph = none) (noSection : a.openSection = none) :
    ∃ calls last,
      (a.run (eventsFrom line (ps.flatMap (·.constructs) ++ sections.flatMap (·.constructs)))).closed =
        { a with
          closedSections := a.closedSections ++
            numbered ProcedurePart.height ProcedurePart.record (line + totalHeight (·.height) ps) sections
          closedParagraphs := a.closedParagraphs ++
            (numbered ParagraphPart.height (ParagraphPart.record none) line ps ++
              (numbered ProcedurePart.height ProcedurePart.paragraphRecords (line + totalHeight (·.height) ps)
                sections).flatten)
          calls := calls
          lastLine := last } := by
  have next : (ps.flatMap (·.constructs)).length = totalHeight (·.height) ps :=
    length_flatMap ParagraphPart.length_constructs ps
  obtain ⟨calls, last, outside⟩ := run_paragraphs ps line noParagraph
  simp only [noSection, Option.map_none] at outside
  have between : (a.run (eventsFrom line (ps.flatMap (·.constructs)))).closed =
      { a with
        openSection := none
        closedParagraphs := a.closedParagraphs ++
          numbered ParagraphPart.height (ParagraphPart.record none) line ps
        calls := calls
        lastLine := last } := by
    rw [closed, outside]
    exact closeSection_of_none rfl
  have inProcedure' : (a.run (eventsFrom line (ps.flatMap (·.constructs)))).division =
      some Division.procedure.name := by
    rw [← closeParagraph_division, outside]
    exact inProcedure
  obtain ⟨calls', last', within⟩ := run_sections
    (a := (a.run (eventsFrom line (ps.flatMap (·.constructs)))).closed) sections (line + totalHeight (·.height) ps)
    (by rw [between]; exact inProcedure) (closed_openParagraph _) (closed_openSection _)
  refine ⟨calls', last', ?_⟩
  rw [run_eventsFrom_append, next, ← closed_run_sections _ _ inProcedure', within, between]
  simp only [List.append_assoc, noSection]

end Procedure

/-! ## The whole skeleton -/

/-- The constructs before the header of the procedure division. -/
def dataConstructs (s : Skeleton) : List Construct :=
  [.division .identification, .programId s.id, .division .data] ++ s.dataSections.flatMap (·.constructs)

theorem length_dataConstructs (s : Skeleton) : 1 + s.dataConstructs.length = s.procedureLine := by
  have headers : [Construct.division .identification, .programId s.id, .division .data].length = 3 := rfl
  rw [dataConstructs, List.length_append, headers, length_flatMap DataPart.length_constructs, procedureLine,
    ← Nat.add_assoc]

/-- The assembly behind the header of the procedure division. -/
def atProcedure (path : Path) (s : Skeleton) : Assembly :=
  { start path Source.backendName with
    id := s.id.text
    declaresId := true
    divisions := [Division.identification, .data, .procedure].map (·.name)
    division := some Division.procedure.name
    dataSections := numbered DataPart.height DataPart.record 4 s.dataSections
    lastLine := UInt32.ofNat s.procedureLine }

theorem setProgramId_of_user {a : Assembly} (undeclared : a.declaresId = false) (u : UserName) :
    a.setProgramId u.text = { a with id := u.text, declaresId := true } := by
  have nonempty : u.text.isEmpty = false := by
    obtain ⟨c, t, text, -⟩ := u.exists_cons
    rw [text, List.isEmpty_cons]
  simp only [setProgramId, u.clean_text, undeclared, nonempty, Bool.or_self, Bool.false_eq_true, if_false]

theorem run_dataConstructs (path : Path) (s : Skeleton) :
    ((start path Source.backendName).run (eventsFrom 1 s.dataConstructs)).run
        ((Construct.division .procedure).events s.procedureLine) = s.atProcedure path := by
  have headers : (start path Source.backendName).run
      (eventsFrom 1 [.division .identification, .programId s.id, .division .data]) =
      (((start path Source.backendName).enterDivision Division.identification.name 1).setProgramId
        s.id.text).enterDivision Division.data.name 3 := rfl
  rw [setProgramId_of_user rfl] at headers
  obtain ⟨current, last, data⟩ := run_dataSections (a := (start path Source.backendName).run
      (eventsFrom 1 [.division .identification, .programId s.id, .division .data]))
    s.dataSections 4 (by rw [headers]; rfl) (by rw [headers]; rintro u - t ⟨⟩) s.distinct
  rw [dataConstructs, run_eventsFrom_append]
  show Assembly.run (Assembly.run _ (eventsFrom 4 _)) _ = _
  rw [data, headers]
  rfl

/-- **The events of a skeleton add up to the program that it describes.** -/
theorem finish_run_events (path : Path) (s : Skeleton) :
    ((start path Source.backendName).run (eventsFrom 1 s.constructs)).finish = s.program path := by
  obtain ⟨calls, last, procedure⟩ := run_procedure (a := s.atProcedure path) s.paragraphs s.sections
    (s.procedureLine + 1) rfl rfl rfl
  have parts : (start path Source.backendName).run (eventsFrom 1 s.constructs) =
      (s.atProcedure path).run (eventsFrom (s.procedureLine + 1)
        (s.paragraphs.flatMap (·.constructs) ++ s.sections.flatMap (·.constructs))) := by
    have written : s.constructs = s.dataConstructs ++ .division .procedure ::
      (s.paragraphs.flatMap (·.constructs) ++ s.sections.flatMap (·.constructs)) := rfl
    rw [written, run_eventsFrom_append, length_dataConstructs, run_eventsFrom_cons, run_dataConstructs]
  -- every field but the edges; the edges are those of the statements
  have fields : ((start path Source.backendName).run (eventsFrom 1 s.constructs)).finish =
      { s.program path with calls := calls } := by
    rw [parts, ← finish_closed, procedure, finish_of_none rfl rfl]
    rfl
  have edges := finish_calls (run_agrees (start_agrees path Source.backendName) (eventsFrom 1 s.constructs))
  rw [fields] at edges ⊢
  have sameEdges : calls = (s.program path).calls := edges
  rw [sameEdges]

end CobolAtlas.Skeleton
