/-
# CobolAtlas.Proofs.Program.History -- a program read off its events

An assembly carries cursors from event to event: the current division and data section, the section and
the paragraph that are open.  The same can be read off the events themselves.  A `History` lists the events
before a point, the newest first; `division`, `dataSection` and `paragraphOpen` look back in it for the last
event that counts, and `gather` collects what each event tells when it is read in its history.

* `filings`: which paragraphs open, and which statements follow each of them;
* `itemsFor n`: the items described while `n` was the current data section;
* `sectionsEntered`, `divisionsEntered`, `namesDeclared`: the names that are entered or declared.

An assembly has two halves that no event changes together, but for a division header: what is declared
(`Declarations.Reads`) and what is in procedures (`Procedures.Reads`).  Each holds what its history tells,
and every event keeps that.  The main statement is `ofEvents_eq_gather`: nothing that is accepted is lost,
doubled or filed elsewhere.
-/
import CobolAtlas.Proofs.Program.Closing
import Mathlib.Data.List.Induction
import Mathlib.Data.List.Nodup

namespace CobolAtlas

set_option autoImplicit false

/-- The events before a point of a file, the newest first. -/
abbrev History := List Event

/-- One entry of the procedure division: a paragraph opens, or a statement goes to the paragraph that opened
last. -/
inductive Filing where
  | opened (name : Text) (line : LineNumber)
  | stated (statement : Statement)
deriving DecidableEq

/-- The statement, where the entry is one. -/
def Filing.statement? : Filing → Option Statement
  | .opened .. => none
  | .stated s => some s

/-- A paragraph and its statements in order. -/
def Paragraph.filings (p : Paragraph) : List Filing := .opened p.name p.line :: p.statements.map .stated

/-- All paragraphs in order, each with its statements. -/
def Program.filings (p : Program) : List Filing := p.paragraphs.flatMap Paragraph.filings

/-- The items of the data section of that name. -/
def Program.itemsOf (p : Program) (name : Text) : List DataItem :=
  p.dataSections.flatMap fun s => if s.name = name then s.items else []

namespace History

/-! ## What is current -/

/-- The division entered last. -/
def division : History → Option Text
  | [] => none
  | .division name _ :: _ => some (Name.ofDivision name)
  | _ :: before => division before

/-- Is the procedure division current? -/
def inProcedure (h : History) : Bool := h.division == some "PROCEDURE".toList

/-- The data section entered last, unless a division was entered after it. -/
def dataSection : History → Option Text
  | [] => none
  | .division .. :: _ => none
  | .dataSection name :: _ => some (Name.ofSection name)
  | .sectionHeader name _ :: before =>
      if division before = some "DATA".toList then some (Name.ofSection name) else dataSection before
  | _ :: before => dataSection before

/-- Has a paragraph opened that nothing has closed since?  A statement of the procedure division opens one
where there is none. -/
def paragraphOpen : History → Bool
  | [] => false
  | .paragraph .. :: _ => true
  | .statement _ :: before => paragraphOpen before || inProcedure before
  | .division .. :: _ => false
  | .procedureSection .. :: _ => false
  | .sectionHeader .. :: before => paragraphOpen before && !inProcedure before
  | _ :: before => paragraphOpen before

/-! ## What events tell -/

section Gather

variable {α : Type}

/-- What the events tell in turn, each read with the events before it. -/
def gather (tells : History → Event → List α) : History → List α
  | [] => []
  | e :: before => gather tells before ++ tells before e

theorem gather_cons (tells : History → Event → List α) (e : Event) (before : History) :
    gather tells (e :: before) = gather tells before ++ tells before e := rfl

/-- An event that tells nothing leaves no trace. -/
theorem gather_cons_of_nil {tells : History → Event → List α} {e : Event} {before : History}
    (silent : tells before e = []) : gather tells (e :: before) = gather tells before := by
  rw [gather_cons, silent, List.append_nil]

end Gather

/-- The statements that are accepted: a paragraph is open, or the procedure division is current. -/
def statementsAccepted (before : History) : Event → List Statement
  | .statement s => if before.paragraphOpen || before.inProcedure then [s] else []
  | _ => []

/-- The paragraph that opens, and the statement that goes to the paragraph opened last. -/
def filings (before : History) : Event → List Filing
  | .paragraph name line => [.opened (Name.clean name) line]
  | .statement s =>
      if before.paragraphOpen then [.stated s]
      else if before.inProcedure then [.opened Program.entryParagraph s.line, .stated s]
      else []
  | _ => []

/-- The item that is described while `name` is the current data section. -/
def itemsFor (name : Text) (before : History) : Event → List DataItem
  | .dataItem item =>
      if before.dataSection = some name then [{ item with name := Name.clean item.name }] else []
  | _ => []

/-- The data section that is entered. -/
def sectionsEntered (before : History) : Event → List Text
  | .dataSection name => [Name.ofSection name]
  | .sectionHeader name _ =>
      if before.division = some "DATA".toList then [Name.ofSection name] else []
  | _ => []

/-- The division that is entered. -/
def divisionsEntered (_ : History) : Event → List Text
  | .division name _ => [Name.ofDivision name]
  | _ => []

/-- The PROGRAM-ID, where cleaning leaves something of it. -/
def namesDeclared (_ : History) : Event → List Text
  | .programId name => if Name.clean name = [] then [] else [Name.clean name]
  | _ => []

/-- The current data section has been entered. -/
theorem mem_sectionsEntered {h : History} {name : Text} (current : h.dataSection = some name) :
    name ∈ h.gather sectionsEntered := by
  induction h with
  | nil => cases current
  | cons e before ih =>
    rw [gather_cons, List.mem_append]
    cases e with
    | division _ _ => cases current
    | dataSection _ => exact .inr (List.mem_singleton.2 (Option.some.inj current).symm)
    | sectionHeader _ _ =>
      simp only [dataSection] at current
      simp only [sectionsEntered]
      split at current <;> rename_i inData
      · right
        rw [if_pos inData]
        exact List.mem_singleton.2 (Option.some.inj current).symm
      · exact .inl (ih current)
    | _ => exact .inl (ih current)

/-- Nothing is described in a section that was never entered. -/
theorem itemsFor_eq_nil {h : History} {name : Text} (never : name ∉ h.gather sectionsEntered) :
    h.gather (itemsFor name) = [] := by
  induction h with
  | nil => rfl
  | cons e before ih =>
    rw [gather_cons, List.mem_append, not_or] at never
    rw [gather_cons, ih never.1, List.nil_append]
    cases e with
    | dataItem item =>
      have other : dataSection before ≠ some name := fun current => never.1 (mem_sectionsEntered current)
      rw [itemsFor, if_neg other]
    | _ => rfl

/-- The statements among the filings are those that are accepted. -/
theorem filings_statements (h : History) :
    (h.gather filings).filterMap Filing.statement? = h.gather statementsAccepted := by
  induction h with
  | nil => rfl
  | cons e before ih =>
    rw [gather_cons, gather_cons, List.filterMap_append, ih]
    congr 1
    cases e with
    | statement s =>
      cases isOpen : paragraphOpen before <;> cases current : inProcedure before <;>
        simp [filings, List.filterMap_cons, Filing.statement?, statementsAccepted, isOpen, current]
    | _ => rfl

end History

/-! ## First occurrences -/

/-- One more name counts where it did not occur before. -/
theorem eraseDups_append_singleton (names : List Text) (name : Text) :
    (names ++ [name]).eraseDups =
      if name ∈ names then names.eraseDups else names.eraseDups ++ [name] := by
  rw [List.eraseDups_append]
  by_cases known : name ∈ names <;> simp [List.removeAll, List.eraseDups_cons, known]

theorem nodup_eraseDups (names : List Text) : names.eraseDups.Nodup := by
  induction names using List.reverseRecOn with
  | nil => exact List.nodup_nil
  | append_singleton names name ih =>
    rw [eraseDups_append_singleton]
    split
    · exact ih
    · rename_i fresh
      rw [← List.concat_eq_append]
      exact ih.concat fun member => fresh (List.mem_eraseDups.1 member)

namespace Assembly

/-! ## Declarations -/

/-- What an assembly knows outside procedures. -/
structure Declarations where
  id : Text
  declaresId : Bool
  divisions : List Text
  division : Option Text
  dataSections : List DataSection
  dataSection : Option Text

def declarations (a : Assembly) : Declarations :=
  ⟨a.id, a.declaresId, a.divisions, a.division, a.dataSections, a.dataSection⟩

theorem closeParagraph_declarations (a : Assembly) : a.closeParagraph.declarations = a.declarations := by
  unfold closeParagraph; split <;> rfl

theorem enterParagraph_declarations (a : Assembly) (name : Text) (line : LineNumber) :
    (a.enterParagraph name line).declarations = a.declarations := closeParagraph_declarations a

theorem appendStatement_declarations (a : Assembly) (s : Statement) :
    (a.appendStatement s).declarations = a.declarations := by
  unfold appendStatement; split <;> rfl

theorem addStatement_declarations (a : Assembly) (s : Statement) :
    (a.addStatement s).declarations = a.declarations := by
  unfold addStatement
  split
  · rw [appendStatement_declarations, enterParagraph_declarations]
  · exact appendStatement_declarations a s

theorem enterProcedureSection_declarations (a : Assembly) (name : Text) (line : LineNumber) :
    (a.enterProcedureSection name line).declarations = a.declarations := closeParagraph_declarations a

/-- The declarations are what the history tells; `stem` names a program that declares no name. -/
structure Declarations.Reads (d : Declarations) (stem : Text) (h : History) : Prop where
  id : d.id = (h.gather History.namesDeclared).head?.getD stem
  declaresId : d.declaresId = (h.gather History.namesDeclared).head?.isSome
  divisions : d.divisions = (h.gather History.divisionsEntered).eraseDups
  division : d.division = h.division
  dataSections : d.dataSections =
    (h.gather History.sectionsEntered).eraseDups.map fun name => ⟨name, h.gather (History.itemsFor name)⟩
  dataSection : d.dataSection = h.dataSection

variable {a : Assembly} {stem : Text} {h : History}

/-- An event that tells of no division, section or item and changes neither cursor leaves all as it is, names
aside. -/
theorem Declarations.Reads.cons {d : Declarations} (reads : d.Reads stem h) {e : Event} {id : Text}
    {declaresId : Bool}
    (named : id = (History.gather History.namesDeclared (e :: h)).head?.getD stem)
    (isDeclared : declaresId = (History.gather History.namesDeclared (e :: h)).head?.isSome)
    (division : History.division (e :: h) = h.division)
    (dataSection : History.dataSection (e :: h) = h.dataSection)
    (noDivision : History.divisionsEntered h e = []) (noSection : History.sectionsEntered h e = [])
    (noItem : ∀ name, History.itemsFor name h e = []) :
    Declarations.Reads { d with id := id, declaresId := declaresId } stem (e :: h) where
  id := named
  declaresId := isDeclared
  divisions := by rw [History.gather_cons_of_nil noDivision]; exact reads.divisions
  division := by rw [division]; exact reads.division
  dataSections := by
    simp only [History.gather_cons_of_nil noSection, History.gather_cons_of_nil (noItem _)]
    exact reads.dataSections
  dataSection := by rw [dataSection]; exact reads.dataSection

/-- An event of the procedure division, or a mark. -/
theorem Declarations.Reads.keep {d : Declarations} (reads : d.Reads stem h) {e : Event}
    (noName : History.namesDeclared h e = []) (division : History.division (e :: h) = h.division)
    (dataSection : History.dataSection (e :: h) = h.dataSection)
    (noDivision : History.divisionsEntered h e = []) (noSection : History.sectionsEntered h e = [])
    (noItem : ∀ name, History.itemsFor name h e = []) : d.Reads stem (e :: h) :=
  reads.cons (by rw [History.gather_cons_of_nil noName]; exact reads.id)
    (by rw [History.gather_cons_of_nil noName]; exact reads.declaresId) division dataSection noDivision noSection noItem

/-- The first name that is declared stays. -/
theorem setProgramId_reads (reads : a.declarations.Reads stem h) (name : Text) :
    (a.setProgramId name).declarations.Reads stem (.programId name :: h) := by
  have id := reads.id
  have declaresId := reads.declaresId
  by_cases unnamed : Name.clean name = []
  · have silent : History.namesDeclared h (.programId name) = [] := by rw [History.namesDeclared, if_pos unnamed]
    simp only [setProgramId, unnamed, List.isEmpty_nil, Bool.or_true, if_true]
    exact reads.keep silent rfl rfl rfl rfl fun _ => rfl
  · have told : History.gather History.namesDeclared (.programId name :: h) =
        h.gather History.namesDeclared ++ [Name.clean name] := by
      rw [History.gather_cons, History.namesDeclared, if_neg unnamed]
    have fresh : (Name.clean name).isEmpty = false := by simpa using unnamed
    cases names : h.gather History.namesDeclared with
    | nil =>
      rw [names] at told declaresId
      have undeclared : a.declaresId = false := declaresId
      simp only [setProgramId, undeclared, fresh, Bool.or_false, Bool.false_eq_true, if_false]
      exact reads.cons (by rw [told]; rfl) (by rw [told]; rfl) rfl rfl rfl rfl fun _ => rfl
    | cons first rest =>
      rw [names] at told id declaresId
      have declared : a.declaresId = true := declaresId
      simp only [setProgramId, declared, Bool.true_or, if_true]
      exact reads.cons (by rw [told]; exact id) (by rw [told]; exact declaresId) rfl rfl rfl rfl fun _ => rfl

/-- A division is listed where it is entered first. -/
theorem enterDivision_reads (reads : a.declarations.Reads stem h) (name : Text) (line : LineNumber) :
    (a.enterDivision name line).declarations.Reads stem (.division name line :: h) := by
  have closed : a.closeParagraph.closeSection.declarations = a.declarations := closeParagraph_declarations a
  rw [← closed] at reads
  unfold enterDivision
  generalize a.closeParagraph.closeSection = b at reads ⊢
  refine ⟨?_, ?_, ?_, rfl, ?_, rfl⟩
  · rw [History.gather_cons_of_nil rfl]
    exact reads.id
  · rw [History.gather_cons_of_nil rfl]
    exact reads.declaresId
  · have divisions : b.divisions = (h.gather History.divisionsEntered).eraseDups := reads.divisions
    have told : History.gather History.divisionsEntered (.division name line :: h) =
        h.gather History.divisionsEntered ++ [Name.ofDivision name] := rfl
    rw [told, eraseDups_append_singleton, ← divisions]
    simp only [declarations, divisions, List.mem_eraseDups]
  · simp only [History.gather_cons, History.sectionsEntered, History.itemsFor, List.append_nil]
    exact reads.dataSections

/-- A data section is listed, without items, where it is entered first. -/
theorem enterDataSection_reads (reads : a.declarations.Reads stem h) {e : Event} (name : Text)
    (noName : History.namesDeclared h e = []) (division : History.division (e :: h) = h.division)
    (noDivision : History.divisionsEntered h e = []) (noItem : ∀ name, History.itemsFor name h e = [])
    (dataSection : History.dataSection (e :: h) = some (Name.ofSection name))
    (entered : History.sectionsEntered h e = [Name.ofSection name]) :
    (a.enterDataSection name).declarations.Reads stem (e :: h) := by
  refine ⟨?_, ?_, ?_, ?_, ?_, dataSection.symm⟩
  · rw [History.gather_cons_of_nil noName]
    exact reads.id
  · rw [History.gather_cons_of_nil noName]
    exact reads.declaresId
  · rw [History.gather_cons_of_nil noDivision]
    exact reads.divisions
  · rw [division]
    exact reads.division
  · have sections : a.dataSections = (h.gather History.sectionsEntered).eraseDups.map fun name =>
        ⟨name, h.gather (History.itemsFor name)⟩ := reads.dataSections
    have known : (a.dataSections.any fun s => s.name == Name.ofSection name) =
        decide (Name.ofSection name ∈ h.gather History.sectionsEntered) := by
      rw [Bool.eq_iff_iff]
      simp [sections]
    simp only [declarations, enterDataSection, History.gather_cons_of_nil (noItem _), known, decide_eq_true_eq]
    rw [History.gather_cons, entered, eraseDups_append_singleton]
    split
    · exact sections
    · rename_i fresh
      rw [List.map_append, ← sections, List.map_singleton, History.itemsFor_eq_nil fresh]

/-- An item goes to the section that is current. -/
theorem addDataItem_reads (reads : a.declarations.Reads stem h) (item : DataItem) :
    (a.addDataItem item).declarations.Reads stem (.dataItem item :: h) := by
  have current : a.dataSection = h.dataSection := reads.dataSection
  unfold addDataItem
  cases inSection : a.dataSection with
  | none =>
    have silent : ∀ name, History.itemsFor name h (.dataItem item) = [] := by
      intro name
      rw [History.itemsFor, ← current, inSection, if_neg (by simp)]
    exact reads.keep rfl rfl rfl rfl rfl silent
  | some name =>
    have sections : a.dataSections = (h.gather History.sectionsEntered).eraseDups.map fun name =>
        ⟨name, h.gather (History.itemsFor name)⟩ := reads.dataSections
    refine ⟨?_, ?_, ?_, reads.division, ?_, ?_⟩
    · rw [History.gather_cons_of_nil rfl]
      exact reads.id
    · rw [History.gather_cons_of_nil rfl]
      exact reads.declaresId
    · rw [History.gather_cons_of_nil rfl]
      exact reads.divisions
    · rw [History.gather_cons_of_nil rfl]
      simp only [declarations, observe, sections, List.map_map]
      refine List.map_congr_left fun other _ => ?_
      simp only [Function.comp_apply, History.gather_cons, History.itemsFor, ← current, inSection, Option.some.injEq]
      by_cases same : name = other
      · simp [same]
      · simp [same, Ne.symm same]
    · exact inSection.symm.trans current

/-- Every event keeps that the declarations are what the history tells. -/
theorem step_reads (reads : a.declarations.Reads stem h) (e : Event) :
    (a.step e).declarations.Reads stem (e :: h) := by
  have division : a.division = h.division := reads.division
  cases e with
  | programId name => exact setProgramId_reads reads name
  | division name line => exact enterDivision_reads reads name line
  | sectionHeader name line =>
    simp only [step, enterSection, division]
    split
    · rename_i inData
      exact enterDataSection_reads reads name rfl rfl rfl (fun _ => rfl) (if_pos inData) (if_pos inData)
    · rename_i notInData
      have kept : a.declarations.Reads stem (.sectionHeader name line :: h) :=
        reads.keep rfl rfl (if_neg notInData) rfl (if_neg notInData) fun _ => rfl
      split
      · rw [enterProcedureSection_declarations]
        exact kept
      · exact kept
  | dataSection name => exact enterDataSection_reads reads name rfl rfl rfl (fun _ => rfl) rfl rfl
  | procedureSection name line =>
    rw [step, enterProcedureSection_declarations]
    exact reads.keep rfl rfl rfl rfl rfl fun _ => rfl
  | dataItem item => exact addDataItem_reads reads item
  | paragraph name line =>
    rw [step, enterParagraph_declarations]
    exact reads.keep rfl rfl rfl rfl rfl fun _ => rfl
  | statement s =>
    rw [step, addStatement_declarations]
    exact reads.keep rfl rfl rfl rfl rfl fun _ => rfl
  | observe line => exact reads.keep rfl rfl rfl rfl rfl fun _ => rfl
  | syntaxErrors count => exact reads.keep rfl rfl rfl rfl rfl fun _ => rfl

/-! ## Procedures -/

/-- A paragraph is open where the history tells of one, and the paragraphs hold what the history files. -/
structure Files (a : Assembly) (h : History) : Prop where
  openParagraph : a.openParagraph.isSome = h.paragraphOpen
  filings : a.paragraphs.flatMap Paragraph.filings = h.gather History.filings

/-- Where a paragraph ends does not show in its filings. -/
theorem closeParagraph_filings (a : Assembly) :
    a.closeParagraph.closedParagraphs.flatMap Paragraph.filings = a.paragraphs.flatMap Paragraph.filings := by
  cases isOpen : a.openParagraph with
  | none => simp [closeParagraph_of_none isOpen, paragraphs, isOpen]
  | some p => simp [closeParagraph_of_some isOpen, paragraphs, isOpen, Paragraph.filings]

/-- An event that closes what is open files nothing. -/
theorem Files.close (files : a.Files h) {e : Event} {b : Assembly}
    (closed : b.closedParagraphs = a.closeParagraph.closedParagraphs) (noneOpen : b.openParagraph = none)
    (closes : History.paragraphOpen (e :: h) = false) (silent : History.filings h e = []) :
    b.Files (e :: h) where
  openParagraph := by rw [noneOpen, closes]; rfl
  filings := by
    rw [paragraphs, noneOpen, closed, Option.toList_none, List.append_nil, closeParagraph_filings, files.filings,
      History.gather_cons_of_nil silent]

/-- An event that is none of the procedure division files nothing. -/
theorem Files.keep (files : a.Files h) {e : Event} {b : Assembly}
    (closed : b.closedParagraphs = a.closedParagraphs) (opened : b.openParagraph = a.openParagraph)
    (keeps : History.paragraphOpen (e :: h) = h.paragraphOpen) (silent : History.filings h e = []) :
    b.Files (e :: h) where
  openParagraph := by rw [opened, keeps, files.openParagraph]
  filings := by rw [paragraphs, closed, opened, History.gather_cons_of_nil silent]; exact files.filings

theorem enterProcedureSection_files (files : a.Files h) {e : Event} (name : Text) (line : LineNumber)
    (closes : History.paragraphOpen (e :: h) = false) (silent : History.filings h e = []) :
    (a.enterProcedureSection name line).Files (e :: h) :=
  files.close rfl (closeParagraph_openParagraph a) closes silent

/-- A paragraph that opens is filed last. -/
theorem enterParagraph_filings (a : Assembly) (name : Text) (line : LineNumber) :
    (a.enterParagraph name line).paragraphs.flatMap Paragraph.filings =
      a.paragraphs.flatMap Paragraph.filings ++ [.opened (Name.clean name) line] := by
  have opened : (a.enterParagraph name line).paragraphs = a.closeParagraph.closedParagraphs ++
      [⟨Name.clean name, a.closeParagraph.openSection.map (·.name), line, line, []⟩] := rfl
  rw [opened, List.flatMap_append, closeParagraph_filings, List.flatMap_singleton, Paragraph.filings, List.map_nil]

/-- A statement is filed last, in the paragraph that is open. -/
theorem appendStatement_filings (isOpen : a.openParagraph.isSome = true) (s : Statement) :
    (a.appendStatement s).paragraphs.flatMap Paragraph.filings =
      a.paragraphs.flatMap Paragraph.filings ++ [.stated s] := by
  obtain ⟨p, opened⟩ := Option.isSome_iff_exists.1 isOpen
  simp [appendStatement, paragraphs, observe, opened, Paragraph.filings]

theorem addStatement_files (files : a.Files h) (division : a.division = h.division) (s : Statement) :
    (a.addStatement s).Files (.statement s :: h) := by
  have inProcedure : a.inProcedure = h.inProcedure := by rw [inProcedure, division, History.inProcedure]
  have isOpen := files.openParagraph
  have entry : Name.clean Program.entryParagraph = Program.entryParagraph := by decide
  rw [addStatement, ← Option.not_isSome, isOpen, inProcedure]
  cases opened : h.paragraphOpen with
  | true =>
    simp only [Bool.not_true, Bool.false_and, Bool.false_eq_true, if_false]
    refine ⟨?_, ?_⟩
    · simp [appendStatement_isSome, isOpen, History.paragraphOpen, opened]
    · rw [appendStatement_filings (isOpen.trans opened), files.filings, History.gather_cons, History.filings,
        if_pos opened]
  | false =>
    cases current : h.inProcedure with
    | true =>
      simp only [Bool.not_false, Bool.true_and, if_true]
      refine ⟨?_, ?_⟩
      · rw [appendStatement_isSome, History.paragraphOpen, current, Bool.or_true]
        rfl
      · rw [appendStatement_filings rfl, enterParagraph_filings, files.filings, History.gather_cons, History.filings]
        simp [opened, current, entry]
    | false =>
      have noneOpen : a.openParagraph = none := by simpa [opened] using isOpen
      simp only [Bool.and_false, Bool.false_eq_true, if_false, appendStatement, noneOpen]
      exact files.keep rfl rfl (by simp [History.paragraphOpen, opened, current])
        (by simp [History.filings, opened, current])

/-- Every event keeps that the paragraphs hold what the history files. -/
theorem step_files (files : a.Files h) (division : a.division = h.division) (e : Event) :
    (a.step e).Files (e :: h) := by
  cases e with
  | programId name =>
    simp only [step, setProgramId]
    split <;> exact files.keep rfl rfl rfl rfl
  | division name line => exact files.close rfl (closeParagraph_openParagraph a) rfl rfl
  | sectionHeader name line =>
    simp only [step, enterSection, division]
    split
    · rename_i inData
      exact files.keep rfl rfl (by simp [History.paragraphOpen, History.inProcedure, inData]) rfl
    · split
      · rename_i inProcedure
        exact enterProcedureSection_files files name line
          (by simp [History.paragraphOpen, History.inProcedure, inProcedure]) rfl
      · rename_i elsewhere
        have other : h.inProcedure = false := beq_false_of_ne elsewhere
        exact files.keep rfl rfl (by simp [History.paragraphOpen, other]) rfl
  | dataSection name => exact files.keep rfl rfl rfl rfl
  | procedureSection name line => exact enterProcedureSection_files files name line rfl rfl
  | dataItem item =>
    simp only [step, addDataItem]
    split <;> exact files.keep rfl rfl rfl rfl
  | paragraph name line =>
    exact ⟨rfl, by rw [step, enterParagraph_filings, files.filings]; rfl⟩
  | statement s => exact addStatement_files files division s
  | observe line => exact files.keep rfl rfl rfl rfl
  | syntaxErrors count => exact files.keep rfl rfl rfl rfl

/-! ## Runs -/

/-- After any events, an assembly holds what they tell. -/
theorem run_reads_files (reads : a.declarations.Reads stem h) (files : a.Files h) (events : List Event) :
    (a.run events).declarations.Reads stem (events.reverse ++ h) ∧ (a.run events).Files (events.reverse ++ h) := by
  induction events generalizing a h with
  | nil => exact ⟨reads, files⟩
  | cons e events ih =>
    rw [List.reverse_cons, List.append_assoc]
    exact ih (step_reads reads e) (step_files files reads.division e)

end Assembly

namespace Program

/-- Among sections of different names, the items of one are found by its name. -/
theorem flatMap_items_of_nodup {names : List Text} (nodup : names.Nodup) (items : Text → List DataItem) (name : Text) :
    ((names.map fun n => (⟨n, items n⟩ : DataSection)).flatMap fun s => if s.name = name then s.items else []) =
      if name ∈ names then items name else [] := by
  induction names with
  | nil => rfl
  | cons first names ih =>
    have fresh : first ∉ names := (List.nodup_cons.1 nodup).1
    rw [List.map_cons, List.flatMap_cons, ih (List.nodup_cons.1 nodup).2]
    by_cases same : first = name
    · subst same
      simp [fresh]
    · simp [same, Ne.symm same]

theorem statements_eq_filings (p : Program) : p.statements = p.filings.filterMap Filing.statement? := by
  rw [statements, filings, List.filterMap_flatMap]
  refine List.flatMap_congr fun q _ => ?_
  rw [Paragraph.filings, List.filterMap_cons, List.filterMap_map]
  exact List.filterMap_some.symm

/-- **Nothing that is accepted is lost, doubled or filed elsewhere.**  Let `h` be the events of a file, the
newest first.

* The paragraphs are those that open, with the statements that follow each until the next one opens; all
  statements together are those accepted.
* The items of a data section are those described while it was current, however often it was entered.
* Divisions and data sections are listed in the order in which they were entered first, and once.
* The name is the first one declared, else the stem of the file's name. -/
theorem ofEvents_eq_gather (path : Path) (backend : Text) (events : List Event) :
    let p := ofEvents path backend events
    let h : History := events.reverse
    p.filings = h.gather History.filings ∧
    p.statements = h.gather History.statementsAccepted ∧
    (∀ name, p.itemsOf name = h.gather (History.itemsFor name)) ∧
    p.dataSections.map (·.name) = (h.gather History.sectionsEntered).eraseDups ∧
    p.divisions = (h.gather History.divisionsEntered).eraseDups ∧
    (p.dataSections.map (·.name)).Nodup ∧ p.divisions.Nodup ∧
    p.id = (h.gather History.namesDeclared).head?.getD (path.fileStem.getD []) ∧
    p.declaresId = (h.gather History.namesDeclared).head?.isSome := by
  intro p h
  have start : (Assembly.start path backend).declarations.Reads (path.fileStem.getD []) [] :=
    ⟨rfl, rfl, rfl, rfl, rfl, rfl⟩
  obtain ⟨reads, files⟩ := Assembly.run_reads_files start ⟨rfl, rfl⟩ events
  rw [List.append_nil] at reads files
  have filings : p.filings = h.gather History.filings := by
    rw [← files.filings, ← Assembly.closeParagraph_filings]
    rfl
  have names : p.dataSections.map (·.name) = (h.gather History.sectionsEntered).eraseDups := by
    have sections : p.dataSections = _ := reads.dataSections
    rw [sections, List.map_map]
    exact List.map_id _
  have divisions : p.divisions = (h.gather History.divisionsEntered).eraseDups := reads.divisions
  refine ⟨filings, ?_, fun name => ?_, names, divisions, names ▸ nodup_eraseDups _, divisions ▸ nodup_eraseDups _,
    reads.id, reads.declaresId⟩
  · rw [statements_eq_filings, filings, History.filings_statements]
  · have sections : p.dataSections = _ := reads.dataSections
    rw [itemsOf, sections, flatMap_items_of_nodup (nodup_eraseDups _)]
    split
    · rfl
    · rename_i never
      exact (History.itemsFor_eq_nil fun entered => never (List.mem_eraseDups.2 entered)).symm

end Program

end CobolAtlas
