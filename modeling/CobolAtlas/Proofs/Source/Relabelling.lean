/-
# CobolAtlas.Proofs.Source.Relabelling -- code lines that read the same under other names

Two code lines read the same under a relabelling when every recogniser finds the same in both, renamed
(`ReadsAs`); then they report the same events, relabelled (`ReadsAs.lineEvents`).  Two texts whose code lines
read the same one by one make the same program up to the relabelling: `ofSource_relabel`.  The relabelling has to
be lawful up to the last line number.  Of the names that a line reports none is that of the entry paragraph, which
is no word (`suits_of_mem_lineEvents`).
-/
import CobolAtlas.Proofs.Program.Relabelling
import CobolAtlas.Proofs.Source.Cleaning
import CobolAtlas.Proofs.Source.Extents
import CobolAtlas.Proofs.Text.Word

namespace CobolAtlas.Source

set_option autoImplicit false

open Text

variable {r : Relabelling} {bound : LineNumber}

/-! ## Events of a line -/

/-- Cleaned or not, a word is no name of the entry paragraph. -/
theorem clean_ne_entryParagraph {w : Text} (word : IsWord w) : Name.clean w ≠ Program.entryParagraph := by
  intro same
  have bracket : '(' ∈ Program.entryParagraph := by decide
  have inName : isNameCharacter '(' = true := word '(' ((Name.isInfix_clean w).subset (same ▸ bracket))
  exact absurd inName (by decide)

theorem isWord_of_paragraphHeader? {sentenceStart : Bool} {code name : Text}
    (found : paragraphHeader? sentenceStart code = some name) : IsWord name := by
  rw [paragraphHeader?] at found
  split at found
  · obtain ⟨read, -⟩ := Option.filter_eq_some_iff.1 found
    simp only [paragraphName?, Option.bind_eq_bind, Option.bind_eq_some_iff, Prod.exists] at read
    obtain ⟨w, rest, named, whole⟩ := read
    split at whole
    · cases whole
      exact (of_name? named).2.2
    · cases whole
  · cases found

/-- A line reports nothing about other lines. -/
theorem line_of_mem_lineEvents {division : Option Text} {sentenceStart : Bool} {line l : LineNumber} {code : Text}
    {e : Event} (member : e ∈ lineEvents division sentenceStart line code) (there : e.line? = some l) : l = line := by
  have report := report_lineEvents division sentenceStart line code
  generalize lineEvents division sentenceStart line code = events at report member
  cases report with
  | header h =>
    rw [List.mem_singleton.1 member] at there
    exact header_line? h there
  | item item noHeader inData found =>
    rw [List.mem_singleton.1 member] at there
    exact (Option.some.inj there).symm.trans (line_of_dataItem? found)
  | paragraph name =>
    rw [List.mem_singleton.1 member] at there
    exact (Option.some.inj there).symm
  | statements =>
    rcases mem_statementEvents_iff.1 member with ⟨s, found, rfl⟩ | rfl
    · exact (Option.some.inj there).symm.trans (line_of_mem_statements found)
    · exact (Option.some.inj there).symm
  | silent => exact absurd member List.not_mem_nil

theorem suits_of_mem_lineEvents (r : Relabelling) {division : Option Text} {sentenceStart : Bool} {line : LineNumber}
    {code : Text} {e : Event} (member : e ∈ lineEvents division sentenceStart line code) : r.Suits e := by
  cases e with
  | paragraph name l =>
    obtain ⟨-, -, -, opened⟩ := paragraph_mem_lineEvents_iff.1 member
    exact if_neg (clean_ne_entryParagraph (isWord_of_paragraphHeader? opened))
  | _ => trivial

/-! ## Lines that read the same -/

def Header.relabel (r : Relabelling) : Header → Header
  | .division name => .division (r.name name)
  | .sectionHead name => .sectionHead (r.name name)
  | .programId name => .programId (r.name name)

def CallTarget.relabel (r : Relabelling) (t : CallTarget) : CallTarget := { t with program := r.name t.program }

def PerformRange.relabel (r : Relabelling) (p : PerformRange) : PerformRange := ⟨r.name p.first, p.last.map r.name⟩

/-- Every recogniser finds in the second code line what it finds in the first, renamed. -/
structure ReadsAs (r : Relabelling) (code code' : Text) : Prop where
  header : header? code' = (header? code).map (Header.relabel r)
  levelAndName : levelAndName? code' = (levelAndName? code).map fun (level, name) => (level, r.name name)
  picture : picture? code' = (picture? code).map r.name
  paragraph : ∀ sentenceStart, paragraphHeader? sentenceStart code' = (paragraphHeader? sentenceStart code).map r.name
  call : callTarget? code' = (callTarget? code).map (CallTarget.relabel r)
  perform : performRange? code' = (performRange? code).map (PerformRange.relabel r)
  goTo : goToTarget? code' = (goToTarget? code).map r.name
  ends : (code'.getLast? == some '.') = (code.getLast? == some '.')

variable {code code' : Text}

theorem ReadsAs.dataItem? (reads : ReadsAs r code code') (line : LineNumber) :
    dataItem? (r.line line) code' = (dataItem? line code).map (DataItem.relabel r) := by
  simp only [Source.dataItem?, reads.levelAndName, reads.picture, Option.bind_eq_bind]
  cases levelAndName? code with
  | none => rfl
  | some found =>
    simp only [Option.map_some, Option.bind_some]
    cases unsigned? found.1 with
    | none => rfl
    | some level => cases picture? code <;> rfl

theorem ReadsAs.statements (reads : ReadsAs r code code') (line : LineNumber) :
    statements (r.line line) code' = (statements line code).map (Statement.relabel r) := by
  simp only [Source.statements, reads.call, reads.perform, reads.goTo, List.map_append]
  congr 1
  · congr 1
    · cases callTarget? code <;> rfl
    · cases performRange? code <;> rfl
  · cases goToTarget? code <;> rfl

theorem ReadsAs.procedureEvents (reads : ReadsAs r code code') (sentenceStart : Bool) (line : LineNumber) :
    procedureEvents sentenceStart (r.line line) code' =
      (procedureEvents sentenceStart line code).map (Event.relabel r) := by
  simp only [Source.procedureEvents, reads.paragraph]
  cases paragraphHeader? sentenceStart code with
  | some name => rfl
  | none =>
    simp only [Option.map_none, reads.statements, List.map_append, List.map_map]
    rfl

/-- Lines that read the same report the same. -/
theorem ReadsAs.lineEvents (reads : ReadsAs r code code') (division : Option Text) (sentenceStart : Bool)
    (line : LineNumber) :
    lineEvents division sentenceStart (r.line line) code' =
      (lineEvents division sentenceStart line code).map (Event.relabel r) := by
  simp only [Source.lineEvents, reads.header]
  cases header? code with
  | some header => cases header <;> rfl
  | none =>
    simp only [Option.map_none, reads.dataItem?, reads.procedureEvents]
    split
    · cases Source.dataItem? line code <;> rfl
    · split <;> rfl

/-- A line reads as itself where no name changes. -/
theorem readsAs_self (names : ∀ name, r.name name = name) (code : Text) : ReadsAs r code code := by
  have all : r.name = id := funext names
  refine ⟨?_, ?_, ?_, fun sentenceStart => ?_, ?_, ?_, ?_, rfl⟩
  · have same : Header.relabel r = id := funext fun h => by cases h <;> exact congrArg _ (names _)
    rw [same, Option.map_id, id]
  · simp only [names]
    exact (congrFun Option.map_id _).symm
  · rw [all, Option.map_id, id]
  · rw [all, Option.map_id, id]
  · have same : CallTarget.relabel r = id := funext fun t => by rw [CallTarget.relabel, names, id]
    rw [same, Option.map_id, id]
  · have same : PerformRange.relabel r = id := funext fun p => by
      rw [PerformRange.relabel, names, all, Option.map_id, id, id]
    rw [same, Option.map_id, id]
  · rw [all, Option.map_id, id]

/-! ## Scans -/

def Scan.relabel (r : Relabelling) (s : Scan) : Scan := { s with assembly := s.assembly.relabel r }

theorem advance_relabel (lawful : r.Lawful bound) {s : Scan} (within : s.assembly.Within bound) {line : LineNumber}
    (reads : ReadsAs r code code') (seen : line ≤ bound) :
    (s.relabel r).advance (r.line line, code') = (s.advance (line, code)).relabel r ∧
      (s.advance (line, code)).assembly.Within bound := by
  have known : ∀ e ∈ lineEvents s.assembly.division s.sentenceStart line code, ∀ l ∈ e.line?, l ≤ bound :=
    fun e member l there => line_of_mem_lineEvents member there ▸ seen
  obtain ⟨run, within'⟩ := Assembly.run_relabel lawful within known fun e member => suits_of_mem_lineEvents r member
  refine ⟨?_, within'⟩
  have events := reads.lineEvents s.assembly.division s.sentenceStart line
  have assembly : (s.relabel r).assembly.run
      (lineEvents (s.relabel r).assembly.division (s.relabel r).sentenceStart (r.line line) code') =
        (s.advance (line, code)).assembly.relabel r := (congrArg (s.assembly.relabel r).run events).trans run
  rw [Scan.advance, assembly, reads.ends]
  rfl

theorem foldl_advance_relabel (lawful : r.Lawful bound) {s : Scan} (within : s.assembly.Within bound)
    {codes : List (LineNumber × Text)} {rewrite : Text → Text} (reads : ∀ c ∈ codes, ReadsAs r c.2 (rewrite c.2))
    (seen : ∀ c ∈ codes, c.1 ≤ bound) :
    (codes.map fun c => (r.line c.1, rewrite c.2)).foldl Scan.advance (s.relabel r) =
        (codes.foldl Scan.advance s).relabel r ∧
      (codes.foldl Scan.advance s).assembly.Within bound := by
  induction codes generalizing s with
  | nil => exact ⟨rfl, within⟩
  | cons c codes ih =>
    obtain ⟨here, within'⟩ := advance_relabel lawful within (reads c List.mem_cons_self) (seen c List.mem_cons_self)
    rw [List.map_cons, List.foldl_cons, List.foldl_cons, here]
    exact ih within' (fun d member => reads d (List.mem_cons_of_mem c member))
      fun d member => seen d (List.mem_cons_of_mem c member)

/-- Where the code lines of two texts read the same under other names and lines, the programs are the same
under these. -/
theorem ofSource_relabel (lawful : r.Lawful bound) (zero : r.line 0 = 0) (path : Path) {text text' : Text}
    (rewrite : Text → Text) (codes : codeLines text' = (codeLines text).map fun c => (r.line c.1, rewrite c.2))
    (reads : ∀ c ∈ codeLines text, ReadsAs r c.2 (rewrite c.2)) (seen : ∀ c ∈ codeLines text, c.1 ≤ bound) :
    Program.ofSource path text' = (Program.ofSource path text).relabel r := by
  have start : Scan.relabel r ⟨Assembly.start path backendName, true⟩ = ⟨Assembly.start path backendName, true⟩ := by
    rw [Scan.relabel, Assembly.start_relabel path backendName zero]
  have within := Assembly.start_within path backendName bound
  obtain ⟨scans, within'⟩ := foldl_advance_relabel (s := ⟨Assembly.start path backendName, true⟩) lawful within reads seen
  rw [start] at scans
  rw [Program.ofSource, Program.ofSource, scan, codes, scans]
  exact Assembly.finish_relabel lawful within'

end CobolAtlas.Source
