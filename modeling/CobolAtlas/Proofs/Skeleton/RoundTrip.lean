/-
# CobolAtlas.Proofs.Skeleton.RoundTrip -- what is written is read back

A skeleton written on a page and read line by line is the program that the skeleton describes
(`ofSource_render`).  The page may give every line its own margin, in free or in fixed format, and may let
statements share a sentence; what is asked of it is that each line holds its text and that no paragraph
starts inside a sentence (`Page.Fits`).  In free format every skeleton fits (`fits_free`).

The reading of a line depends on the lines before it in two ways, by the current division and by whether
a sentence starts.  `StandIn` says that each construct stands where it is read as itself.
-/
import CobolAtlas.Proofs.Skeleton.Assembling

namespace CobolAtlas

set_option autoImplicit false

namespace Skeleton

open Source Assembly

/-! ## Pages -/

def Construct.isParagraph : Construct → Bool
  | .paragraph _ => true
  | _ => false

/-- Can the skeleton be written on the page? -/
structure Page.Fits (page : Page) (s : Skeleton) : Prop where
  margins : ∀ i (h : i < s.constructs.length),
    (page.margin (i + 1)).Holds (s.constructs[i].code (page.period (i + 1)))
  sentences : ∀ i (h : i < s.constructs.length), s.constructs[i + 1]?.any Construct.isParagraph = true →
    s.constructs[i].ends (page.period (i + 1)) = true

instance (code : Text) : (margin : Margin) → Decidable (margin.Holds code)
  | .free indent => inferInstanceAs (Decidable (indent ≤ 6 ∧ (indent = 0 → _)))
  | .fixed sequence indent _ =>
      inferInstanceAs (Decidable (sequence.length = 6 ∧ _ ∧ indent + Text.byteLength code ≤ 65 ∧ _))

instance (page : Page) (s : Skeleton) : Decidable (page.Fits s) :=
  decidable_of_iff
    ((∀ i (h : i < s.constructs.length),
        (page.margin (i + 1)).Holds (s.constructs[i].code (page.period (i + 1)))) ∧
      ∀ i (h : i < s.constructs.length), s.constructs[i + 1]?.any Construct.isParagraph = true →
        s.constructs[i].ends (page.period (i + 1)) = true)
    ⟨fun both => ⟨both.1, both.2⟩, fun fits => ⟨fits.margins, fits.sentences⟩⟩

/-- Behind some blanks and with all its periods, every skeleton can be written. -/
theorem fits_free {indent : Nat} (some_ : 0 < indent) (few : indent ≤ 6) (s : Skeleton) :
    Page.Fits ⟨fun _ => .free indent, fun _ => true⟩ s where
  margins := fun i h => ⟨few, fun none_ => by omega⟩
  sentences := fun i h _ => by cases s.constructs[i] <;> rfl

/-! ## Lines -/

theorem mem_lines {page : Page} {s : Skeleton} (fits : page.Fits s) {line : Text} (member : line ∈ s.lines page) :
    ∃ (c : Construct) (period : Bool) (margin : Margin),
      margin.Holds (c.code period) ∧ margin.place (c.code period) = line := by
  obtain ⟨i, h, same⟩ := List.mem_mapIdx.1 member
  exact ⟨s.constructs[i], page.period (i + 1), page.margin (i + 1), fits.margins i h, same⟩

theorem lines_render {page : Page} {s : Skeleton} (fits : page.Fits s) :
    Text.lines (s.render page) = s.lines page := by
  apply Text.lines_flatMap
  · intro line member
    obtain ⟨c, period, margin, holds, rfl⟩ := mem_lines fits member
    exact (c.isCode period).newline_not_mem_place holds
  · intro line member
    obtain ⟨c, period, margin, holds, rfl⟩ := mem_lines fits member
    exact (c.isCode period).getLast?_place holds

/-- Every line is a code line, with the text that was put on it. -/
theorem numberedCode_place (cs : List Construct) (margin : Nat → Margin) (period : Nat → Bool) (first : Nat)
    (holds : ∀ i (h : i < cs.length), (margin i).Holds (cs[i].code (period i))) :
    numberedCode first (cs.mapIdx fun i c => (margin i).place (c.code (period i))) =
      cs.mapIdx fun i c => (UInt32.ofNat (first + i), c.code (period i)) := by
  induction cs generalizing margin period first with
  | nil => rfl
  | cons c cs ih =>
    have here : code? ((margin 0).place (c.code (period 0))) = some (c.code (period 0)) :=
      (c.isCode (period 0)).code?_place (holds 0 (Nat.zero_lt_succ _))
    have rest := ih (fun i => margin (i + 1)) (fun i => period (i + 1)) (first + 1)
      fun i h => holds (i + 1) (Nat.succ_lt_succ h)
    rw [List.mapIdx_cons, List.mapIdx_cons, numberedCode, here, rest]
    simp only [Option.map_some, Option.toList_some, List.singleton_append, Nat.add_zero, Nat.add_assoc,
      Nat.add_comm 1]

/-! ## Places -/

/-- The division behind a construct. -/
def Construct.divisionAfter (division : Option Text) : Construct → Option Text
  | .division d => some d.name
  | _ => division

/-- Does each construct stand in its division? -/
def StandIn : Option Text → List Construct → Prop
  | _, [] => True
  | division, c :: cs => c.StandsIn division true ∧ StandIn (c.divisionAfter division) cs

theorem standIn_append {division : Option Text} {cs ds : List Construct}
    (here : ∀ c ∈ cs, c.StandsIn division true ∧ c.divisionAfter division = division)
    (rest : StandIn division ds) :
    StandIn division (cs ++ ds) := by
  induction cs with
  | nil => exact rest
  | cons c cs ih =>
    obtain ⟨stands, same⟩ := here c List.mem_cons_self
    refine ⟨stands, ?_⟩
    rw [same]
    exact ih fun d member => here d (List.mem_cons_of_mem c member)

theorem DataPart.stands {s : DataPart} {c : Construct} (member : c ∈ s.constructs) :
    c.StandsIn (some Division.data.name) true ∧
      c.divisionAfter (some Division.data.name) = some Division.data.name := by
  rcases List.mem_cons.1 member with rfl | item
  · exact ⟨trivial, rfl⟩
  · obtain ⟨i, -, rfl⟩ := List.mem_map.1 item
    exact ⟨rfl, rfl⟩

theorem ParagraphPart.stands {p : ParagraphPart} {c : Construct} (member : c ∈ p.constructs) :
    c.StandsIn (some Division.procedure.name) true ∧
      c.divisionAfter (some Division.procedure.name) = some Division.procedure.name := by
  rcases List.mem_cons.1 member with rfl | transfer
  · exact ⟨⟨rfl, rfl⟩, rfl⟩
  · obtain ⟨t, -, rfl⟩ := List.mem_map.1 transfer
    exact ⟨rfl, rfl⟩

theorem ProcedurePart.stands {s : ProcedurePart} {c : Construct} (member : c ∈ s.constructs) :
    c.StandsIn (some Division.procedure.name) true ∧
      c.divisionAfter (some Division.procedure.name) = some Division.procedure.name := by
  rcases List.mem_cons.1 member with rfl | inside
  · exact ⟨trivial, rfl⟩
  · obtain ⟨p, -, inParagraph⟩ := List.mem_flatMap.1 inside
    exact p.stands inParagraph

theorem standIn_constructs (s : Skeleton) : StandIn none s.constructs := by
  have procedure : StandIn (some Division.procedure.name)
      (s.paragraphs.flatMap (·.constructs) ++ s.sections.flatMap (·.constructs)) := by
    rw [← List.append_nil (s.sections.flatMap _)]
    refine standIn_append (fun c member => ?_) (standIn_append (fun c member => ?_) trivial)
    · obtain ⟨p, -, inside⟩ := List.mem_flatMap.1 member
      exact p.stands inside
    · obtain ⟨t, -, inside⟩ := List.mem_flatMap.1 member
      exact t.stands inside
  have data : StandIn (some Division.data.name) (s.dataSections.flatMap (·.constructs) ++ .division .procedure ::
      (s.paragraphs.flatMap (·.constructs) ++ s.sections.flatMap (·.constructs))) := by
    refine standIn_append (fun c member => ?_) ⟨trivial, procedure⟩
    obtain ⟨t, -, inside⟩ := List.mem_flatMap.1 member
    exact t.stands inside
  rw [constructs, List.append_assoc]
  exact ⟨trivial, trivial, trivial, data⟩

/-! ## Scans -/

theorem run_events_division (a : Assembly) (c : Construct) (line : Nat) :
    (a.run (c.events line)).division = c.divisionAfter a.division := by
  cases c with
  | division d =>
    have name : Name.ofDivision d.name = d.name := by cases d <;> decide
    show (a.step (.division d.name (UInt32.ofNat line))).division = some d.name
    rw [step_division]
    exact congrArg some name
  | programId name => exact step_division a (.programId name.text)
  | sectionHeader name => exact step_division a (.sectionHeader name.text (UInt32.ofNat line))
  | item i => exact step_division a (.dataItem (i.record line))
  | paragraph name => exact step_division a (.paragraph name.text (UInt32.ofNat line))
  | transfer t => exact step_division a (.statement (t.record line))

/-- A construct stands where a sentence starts, unless it is a paragraph inside a sentence. -/
theorem Construct.standsIn_of_true {division : Option Text} {sentenceStart : Bool} {c : Construct}
    (stands : c.StandsIn division true) (start : c.isParagraph = true → sentenceStart = true) :
    c.StandsIn division sentenceStart := by
  cases c with
  | paragraph name => exact ⟨stands.1, start rfl⟩
  | _ => exact stands

/-- A scan over constructs runs their events, when each stands in its division and no paragraph stands
inside a sentence. -/
theorem foldl_advance (cs : List Construct) (period : Nat → Bool) (line : Nat) (scan : Scan)
    (stand : StandIn scan.assembly.division cs)
    (start : cs.head?.any Construct.isParagraph = true → scan.sentenceStart = true)
    (sentences : ∀ i (h : i < cs.length), cs[i + 1]?.any Construct.isParagraph = true →
      cs[i].ends (period i) = true) :
    ((cs.mapIdx fun i c => (UInt32.ofNat (line + i), c.code (period i))).foldl Scan.advance scan).assembly =
      scan.assembly.run (eventsFrom line cs) := by
  induction cs generalizing period line scan with
  | nil => rfl
  | cons c cs ih =>
    obtain ⟨here, rest⟩ := stand
    have reported := c.lineEvents_code (period 0) (Construct.standsIn_of_true here start) line
    have ended : ((c.code (period 0)).getLast? == some '.') = c.ends (period 0) := by
      obtain ⟨d, last, -, isPeriod⟩ := c.getLast?_code (period 0)
      rw [last, ← isPeriod]
      rfl
    have advanced : scan.advance (UInt32.ofNat line, c.code (period 0)) =
        ⟨scan.assembly.run (c.events line), c.ends (period 0)⟩ := by
      simp only [Scan.advance, reported, ended]
    have start' : cs.head?.any Construct.isParagraph = true → c.ends (period 0) = true := by
      rw [List.head?_eq_getElem?]
      exact sentences 0 (Nat.zero_lt_succ _)
    have further := ih (fun i => period (i + 1)) (line + 1)
      ⟨scan.assembly.run (c.events line), c.ends (period 0)⟩ (by rw [run_events_division]; exact rest) start'
      fun i h => sentences (i + 1) (Nat.succ_lt_succ h)
    simp only [List.mapIdx_cons, List.foldl_cons, Nat.add_zero, advanced, run_eventsFrom_cons]
    rw [← further]
    simp only [Nat.add_assoc, Nat.add_comm 1]

/-! ## The round trip -/

/-- **A skeleton that is written on a page is read back from it.** -/
theorem ofSource_render (path : Path) {page : Page} {s : Skeleton} (fits : page.Fits s) :
    Program.ofSource path (s.render page) = s.program path := by
  have code : codeLines (s.render page) =
      s.constructs.mapIdx fun i c => (UInt32.ofNat (1 + i), c.code (page.period (i + 1))) := by
    rw [codeLines, lines_render fits]
    exact numberedCode_place s.constructs (fun i => page.margin (i + 1)) (fun i => page.period (i + 1)) 1
      fits.margins
  have scanned := foldl_advance s.constructs (fun i => page.period (i + 1)) 1
    ⟨Assembly.start path backendName, true⟩ (standIn_constructs s) (fun _ => rfl) fits.sentences
  rw [Program.ofSource, Source.scan, code, scanned, finish_run_events]

/-- A payroll program in small. -/
def payroll : Skeleton :=
  let total : UserName := { text := "WS-TOTAL".toList }
  let first : UserName := { text := "1000-INIT".toList }
  let last : UserName := { text := "2000-EXIT".toList }
  { id := { text := "PAYROLL".toList }
    dataSections := [
      { name := { text := "Working-Storage".toList }
        items := [
          { level := { number := 5, wide := true }, name := total, picture := { text := "S9(9)V99".toList } },
          { level := { number := 1, wide := false }, name := last, picture := { text := "X".toList } }] },
      { name := total, items := [] }]
    paragraphs := [{ name := first, transfers := [] }]
    sections := [
      { name := { text := "Main-Logic".toList }
        paragraphs := [
          { name := first
            transfers := [
              .perform first (by decide +kernel) (some last),
              .callLiteral { quote := '"', text := "TAX CALL".toList },
              .callData total] },
          { name := last, transfers := [.goTo first] }] }] }

/-- Lines in both formats; a sentence goes on over line 13. -/
def payrollPage : Page where
  margin := fun n =>
    if n % 3 = 0 then .free 4
    else if n % 3 = 1 then .fixed "000100".toList 0 none
    else .fixed "      ".toList 4 (some "PAYROLL1".toList)
  period := fun n => n != 13

/-- The payroll program is read back. -/
theorem ofSource_render_payroll :
    payrollPage.Fits payroll ∧ Program.ofSource ⟨"/src/PAY.cbl".toList⟩ (payroll.render payrollPage) =
      payroll.program ⟨"/src/PAY.cbl".toList⟩ := by
  have fits : payrollPage.Fits payroll := by decide +kernel
  exact ⟨fits, ofSource_render ⟨"/src/PAY.cbl".toList⟩ fits⟩

end Skeleton

end CobolAtlas
