/-
# CobolAtlas.Proofs.Program.Naming -- names that are cleaned before they are reported

An assembly cleans the names of procedure sections, paragraphs and data items.  A reader may have cleaned them before
(`Event.cleaned`).  Then the program is the same exactly if every name that is recorded is one that a second cleaning
leaves alone (`ofEvents_cleaned_iff`): the names of all sections and paragraphs, and those of the items described while
a data section is current.

Each kind of name is read off the program by what the history tells (`gather`): paragraphs by their filings, items by
the data section they go to, sections by their headers.  The event tells as much of the cleaned name as of the
other, so that programs that are the same were told the same event by event (`tells_eq_of_gather`).
-/
import CobolAtlas.Proofs.Program.Heads
import CobolAtlas.Proofs.Program.History
import CobolAtlas.Proofs.Source.Cleaning

namespace CobolAtlas

set_option autoImplicit false

/-- The event with its name cleaned, where it names a procedure section, a paragraph or a data item. -/
def Event.cleaned : Event → Event
  | .procedureSection name line => .procedureSection (Name.clean name) line
  | .paragraph name line => .paragraph (Name.clean name) line
  | .dataItem item => .dataItem { item with name := Name.clean item.name }
  | e => e

namespace History

/-- The names that are recorded, as they are reported. -/
def namesRecorded (before : History) : Event → List Text
  | .procedureSection name _ => [name]
  | .paragraph name _ => [name]
  | .dataItem item => if before.dataSection.isSome then [item.name] else []
  | _ => []

/-- The procedure section that opens. -/
def headsOpened (before : History) (e : Event) : List (Text × LineNumber) := Assembly.headOpened before.division e

/-! ## Histories of cleaned names -/

section

variable (h : History)

theorem division_cleaned : division (h.map Event.cleaned) = h.division := by
  induction h with
  | nil => rfl
  | cons e before ih =>
    cases e with
    | division _ _ => rfl
    | _ => exact ih

theorem inProcedure_cleaned : inProcedure (h.map Event.cleaned) = h.inProcedure := by
  rw [inProcedure, division_cleaned, inProcedure]

theorem dataSection_cleaned : dataSection (h.map Event.cleaned) = h.dataSection := by
  induction h with
  | nil => rfl
  | cons e before ih =>
    cases e with
    | sectionHeader name line =>
      have division_ := division_cleaned before
      simp only [List.map_cons, Event.cleaned, dataSection, division_, ih]
    | division _ _ => rfl
    | dataSection _ => rfl
    | _ => exact ih

theorem paragraphOpen_cleaned : paragraphOpen (h.map Event.cleaned) = h.paragraphOpen := by
  have inProcedure_ := inProcedure_cleaned
  induction h with
  | nil => rfl
  | cons e before ih =>
    cases e <;> simp only [List.map_cons, Event.cleaned, paragraphOpen, inProcedure_, ih]

end

/-! ## What is told event by event -/

section

variable {α : Type} {tells : History → Event → List α}

theorem mem_gather_iff {h : History} {x : α} :
    x ∈ h.gather tells ↔ ∃ e, ∃ before : History, e :: before <:+ h ∧ x ∈ tells before e := by
  induction h with
  | nil => simp [gather]
  | cons e before ih =>
    rw [gather_cons, List.mem_append, ih]
    constructor
    · rintro (⟨e', before', earlier, told⟩ | told)
      · exact ⟨e', before', earlier.trans (List.suffix_cons e before), told⟩
      · exact ⟨e, before, List.suffix_rfl, told⟩
    · rintro ⟨e', before', among, told⟩
      rcases List.suffix_cons_iff.1 among with here | earlier
      · obtain ⟨rfl, rfl⟩ := List.cons.inj here
        exact .inr told
      · exact .inl ⟨e', before', earlier, told⟩

/-- Each event tells as many things of cleaned names as of the others. -/
def CountsAlike (tells : History → Event → List α) : Prop :=
  ∀ before e, (tells (before.map Event.cleaned) e.cleaned).length = (tells before e).length

/-- Then all that is told is the same only if each event tells the same. -/
theorem tells_eq_of_gather (counts : CountsAlike tells) {h : History}
    (same : gather tells (h.map Event.cleaned) = gather tells h) {e : Event} {before : History}
    (among : e :: before <:+ h) : tells (before.map Event.cleaned) e.cleaned = tells before e := by
  induction h with
  | nil => exact absurd (List.suffix_nil.1 among) (List.cons_ne_nil _ _)
  | cons e' before' ih =>
    rw [List.map_cons, gather_cons, gather_cons] at same
    obtain ⟨earlier, here⟩ := List.append_inj' same (counts before' e')
    rcases List.suffix_cons_iff.1 among with isLast | further
    · obtain ⟨rfl, rfl⟩ := List.cons.inj isLast
      exact here
    · exact ih earlier further

end

theorem countsAlike_filings : CountsAlike filings := by
  intro before e
  cases e with
  | paragraph name line => exact List.length_singleton.trans List.length_singleton.symm
  | statement s => simp only [Event.cleaned, filings, paragraphOpen_cleaned, inProcedure_cleaned]
  | _ => rfl

theorem countsAlike_itemsFor (name : Text) : CountsAlike (itemsFor name) := by
  intro before e
  cases e with
  | dataItem item =>
    simp only [Event.cleaned, itemsFor, dataSection_cleaned]
    split
    · exact List.length_singleton.trans List.length_singleton.symm
    · rfl
  | _ => rfl

theorem countsAlike_headsOpened : CountsAlike headsOpened := by
  intro before e
  cases e with
  | procedureSection name line => exact List.length_singleton.trans List.length_singleton.symm
  | sectionHeader name line => simp only [Event.cleaned, headsOpened, division_cleaned]
  | _ => rfl

/-- The names of data sections are not among those that are cleaned before. -/
theorem gather_sectionsEntered_cleaned (h : History) :
    gather sectionsEntered (h.map Event.cleaned) = gather sectionsEntered h := by
  induction h with
  | nil => rfl
  | cons e before ih =>
    rw [List.map_cons, gather_cons, gather_cons, ih]
    cases e with
    | sectionHeader name line => simp only [Event.cleaned, sectionsEntered, division_cleaned]
    | _ => rfl

end History

namespace Assembly

variable {a : Assembly} {h : History}

/-- Where a second cleaning leaves alone the names that are recorded, the event does what it does without the first. -/
theorem step_cleaned (current : a.dataSection = h.dataSection) {e : Event}
    (settled : ∀ name ∈ h.namesRecorded e, Name.clean (Name.clean name) = Name.clean name) :
    a.step e.cleaned = a.step e := by
  cases e with
  | procedureSection name line =>
    have same : Name.ofSection (Name.clean name) = Name.ofSection name :=
      (Name.ofSection_clean_iff name).2 (settled name (List.mem_singleton_self name))
    simp only [Event.cleaned, step, enterProcedureSection, same]
  | paragraph name line =>
    have same := settled name (List.mem_singleton_self name)
    simp only [Event.cleaned, step, enterParagraph, same]
  | dataItem item =>
    cases there : a.dataSection with
    | none => simp only [Event.cleaned, step, addDataItem, there]
    | some section_ =>
      have recorded : item.name ∈ h.namesRecorded (.dataItem item) := by
        rw [History.namesRecorded, ← current, there]
        exact List.mem_singleton_self _
      simp only [Event.cleaned, step, addDataItem, there, settled item.name recorded]
  | _ => rfl

end Assembly

namespace Program

open Assembly

variable (path : Path) (backend : Text)

/-- What the program of events tells of its paragraphs, items and sections. -/
theorem reads_ofEvents (events : List Event) :
    (ofEvents path backend events).filings = History.gather History.filings events.reverse ∧
      ((start path backend).run events).declarations.Reads (path.fileStem.getD []) events.reverse ∧
      (ofEvents path backend events).sections.map (fun s => (s.name, s.line)) =
        History.gather History.headsOpened events.reverse := by
  have begins : (start path backend).declarations.Reads (path.fileStem.getD []) [] := ⟨rfl, rfl, rfl, rfl, rfl, rfl⟩
  obtain ⟨reads, files⟩ := run_reads_files begins ⟨rfl, rfl⟩ events
  rw [List.append_nil] at reads files
  refine ⟨?_, reads, ?_⟩
  · rw [← files.filings, ← closeParagraph_filings]
    rfl
  · show ((start path backend).run events).heads = _
    induction events using List.reverseRecOn with
    | nil => rfl
    | append_singleton events e ih =>
      obtain ⟨reads, files⟩ := run_reads_files begins ⟨rfl, rfl⟩ events
      rw [List.append_nil] at reads files
      rw [run_append, List.reverse_append, List.reverse_singleton, List.singleton_append, History.gather_cons,
        ← ih reads files, History.headsOpened, ← reads.division]
      exact heads_step _ e

theorem run_cleaned {events : List Event}
    (settled : ∀ name ∈ History.gather History.namesRecorded events.reverse,
      Name.clean (Name.clean name) = Name.clean name) :
    (start path backend).run (events.map Event.cleaned) = (start path backend).run events := by
  induction events using List.reverseRecOn with
  | nil => rfl
  | append_singleton events e ih =>
    rw [List.reverse_append, List.reverse_singleton, List.singleton_append, History.gather_cons] at settled
    obtain ⟨earlier, last⟩ := List.forall_mem_append.1 settled
    obtain ⟨-, reads, -⟩ := reads_ofEvents path backend events
    rw [List.map_append, run_append, run_append, ih earlier]
    exact step_cleaned reads.dataSection last

/-- An assembly that is told cleaned names makes the same program exactly if a second cleaning leaves alone every name
that is recorded. -/
theorem ofEvents_cleaned_iff (events : List Event) :
    ofEvents path backend (events.map Event.cleaned) = ofEvents path backend events ↔
      ∀ name ∈ History.gather History.namesRecorded events.reverse, Name.clean (Name.clean name) = Name.clean name := by
  refine ⟨fun same name member => ?_, fun settled => congrArg finish (run_cleaned path backend settled)⟩
  obtain ⟨e, before, among, recorded⟩ := History.mem_gather_iff.1 member
  obtain ⟨filings, reads, sections_⟩ := reads_ofEvents path backend events
  obtain ⟨filings', reads', sections'⟩ := reads_ofEvents path backend (events.map Event.cleaned)
  rw [← List.map_reverse] at filings' reads' sections'
  cases e with
  | paragraph name' line =>
    obtain rfl := List.mem_singleton.1 recorded
    rw [same, filings] at filings'
    have told := History.tells_eq_of_gather History.countsAlike_filings filings'.symm among
    exact (Filing.opened.inj (List.singleton_inj.1 told)).1
  | procedureSection name' line =>
    obtain rfl := List.mem_singleton.1 recorded
    rw [same, sections_] at sections'
    have told := History.tells_eq_of_gather History.countsAlike_headsOpened sections'.symm among
    exact (Name.ofSection_clean_iff name).1 (Prod.mk.inj (List.singleton_inj.1 told)).1
  | dataItem item =>
    rw [History.namesRecorded] at recorded
    cases current : before.dataSection with
    | none =>
      rw [current] at recorded
      exact absurd recorded List.not_mem_nil
    | some section_ =>
      rw [current] at recorded
      obtain rfl := List.mem_singleton.1 recorded
      -- the data section that was current then has the same items in both programs
      have listed : section_ ∈ (History.gather History.sectionsEntered events.reverse).eraseDups := by
        obtain ⟨e', before', earlier, entered⟩ := History.mem_gather_iff.1 (History.mem_sectionsEntered current)
        exact List.mem_eraseDups.2 (History.mem_gather_iff.2
          ⟨e', before', earlier.trans ((List.suffix_cons _ before).trans among), entered⟩)
      have items := reads'.dataSections.symm.trans ((congrArg Program.dataSections same).trans reads.dataSections)
      rw [History.gather_sectionsEntered_cleaned] at items
      have ofSection := (DataSection.mk.inj (List.map_inj_left.1 items section_ listed)).2
      have told := History.tells_eq_of_gather (History.countsAlike_itemsFor section_) ofSection among
      simp only [Event.cleaned, History.itemsFor, History.dataSection_cleaned, current, if_pos] at told
      exact (DataItem.mk.inj (List.singleton_inj.1 told)).2.1
  | _ => exact absurd recorded List.not_mem_nil

end Program

end CobolAtlas
