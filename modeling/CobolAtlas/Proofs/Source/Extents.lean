/-
# CobolAtlas.Proofs.Source.Extents -- a program lies on its lines

Read line by line, what a program records lies in the order of the lines of its text: `ofSource_extents`,
for texts whose lines can be numbered in 32 bits.  Code lines are numbered in ascending order
(`numberedCode_ascending`), and the events of one line keep `Assembly.Extents` (`advance_extents`): a line
reports one header, item or paragraph, or else statements of which only the first can open a paragraph.
-/
import CobolAtlas.Proofs.Program.Extents
import CobolAtlas.Proofs.Source.Report
import Mathlib.Algebra.Group.Nat.Defs

namespace CobolAtlas.Source

set_option autoImplicit false

open Text Assembly

variable {a : Assembly} {bound line : LineNumber}

/-! ## Code lines -/

theorem toNat_number {n : Nat} (few : n < 2 ^ 32) : (UInt32.ofNat n).toNat = n := UInt32.toNat_ofNat_of_lt' few

/-- Code lines have the numbers of lines. -/
theorem number_of_mem_numberedCode {first : Nat} {lines : List Text} {c : LineNumber × Text}
    (member : c ∈ numberedCode first lines) :
    ∃ n, c.1 = UInt32.ofNat n ∧ first ≤ n ∧ n < first + lines.length := by
  induction lines generalizing first with
  | nil => exact absurd member List.not_mem_nil
  | cons l lines ih =>
    rw [numberedCode] at member
    rcases List.mem_append.1 member with here | later
    · obtain ⟨code, -, rfl⟩ := Option.map_eq_some_iff.1 (Option.mem_toList.1 here)
      exact ⟨first, rfl, Nat.le_refl _, by simp⟩
    · obtain ⟨n, number, low, high⟩ := ih later
      exact ⟨n, number, by omega, by simp only [List.length_cons]; omega⟩

/-- Code lines come in ascending order, where 32 bits are enough. -/
theorem numberedCode_ascending {first : Nat} {lines : List Text} (few : first + lines.length ≤ 2 ^ 32) :
    (numberedCode first lines).Pairwise fun c d => c.1 < d.1 := by
  induction lines generalizing first with
  | nil => exact List.Pairwise.nil
  | cons l lines ih =>
    simp only [List.length_cons] at few
    rw [numberedCode, List.pairwise_append]
    refine ⟨?_, ih (by omega), fun c here d later => ?_⟩
    · cases code? l with
      | none => exact List.Pairwise.nil
      | some code => exact List.pairwise_singleton _ _
    · obtain ⟨code, -, rfl⟩ := Option.map_eq_some_iff.1 (Option.mem_toList.1 here)
      obtain ⟨n, number, low, high⟩ := number_of_mem_numberedCode later
      rw [number, UInt32.lt_iff_toNat_lt, toNat_number (by omega), toNat_number (by omega)]
      omega

/-! ## One line -/

theorem header_line? (h : Header) {l : LineNumber} (there : (h.event line).line? = some l) : l = line := by
  cases h with
  | division name => exact (Option.some.inj there).symm
  | sectionHead name => exact (Option.some.inj there).symm
  | programId name => cases there

theorem line_of_dataItem? {code : Text} {item : DataItem} (found : dataItem? line code = some item) :
    item.line = line := by
  simp only [dataItem?, Option.bind_eq_bind, Option.bind_eq_some_iff] at found
  obtain ⟨_, _, _, _, _, _, made⟩ := found
  cases made
  rfl

theorem line_of_mem_statements {code : Text} {s : Statement} (member : s ∈ statements line code) : s.line = line := by
  simp only [statements, List.mem_append, Option.mem_toList, Option.map_eq_some_iff] at member
  obtain (⟨_, -, rfl⟩ | ⟨_, -, rfl⟩) | ⟨_, -, rfl⟩ := member <;> rfl

/-- In the procedure division a statement leaves a paragraph open. -/
theorem addStatement_isSome (inProcedure : a.inProcedure = true) (s : Statement) :
    (a.addStatement s).openParagraph.isSome = true := by
  cases isOpen : a.openParagraph with
  | none =>
    rw [addStatement_of_none isOpen inProcedure, appendStatement_isSome]
    rfl
  | some p =>
    rw [addStatement_of_some isOpen, appendStatement_isSome, isOpen]
    rfl

/-- The statements of a line and that it is seen: only the first statement can open a paragraph. -/
theorem run_statementEvents_extents (extents : a.Extents bound) (below : bound < line)
    (inProcedure : a.inProcedure = true) (code : Text) :
    (a.run ((statements line code).map .statement ++ [.observe line])).Extents line := by
  have lines : ∀ s ∈ statements line code, s.line = line := fun s => line_of_mem_statements
  rw [run_append]
  refine observe_extents ?_
  cases found : statements line code with
  | nil => exact extents.mono (UInt32.le_of_lt below)
  | cons s ss =>
    rw [found] at lines
    obtain rfl := lines s List.mem_cons_self
    have first : (a.step (.statement s)).Extents s.line :=
      step_extents extents below fun l there => (Option.some.inj there).symm
    exact run_statements_extents first (addStatement_isSome inProcedure s)
      fun t member => lines t (List.mem_cons_of_mem s member)

/-- The events of a code line below everything that was recorded keep the order. -/
theorem advance_extents {scan : Scan} (extents : scan.assembly.Extents bound) {c : LineNumber × Text}
    (below : bound < c.1) : (scan.advance c).assembly.Extents c.1 := by
  obtain ⟨events, report, advanced⟩ := scan.exists_report c
  rw [advanced]
  cases report with
  | header h => exact step_extents extents below fun l there => header_line? h there
  | item item noHeader inData found =>
    refine step_extents (e := .dataItem item) extents below fun l there => ?_
    rw [← line_of_dataItem? found]
    exact (Option.some.inj there).symm
  | paragraph name =>
    exact step_extents (e := .paragraph name c.1) extents below fun l there => (Option.some.inj there).symm
  | statements noHeader inProcedure =>
    exact run_statementEvents_extents extents below (beq_iff_eq.2 inProcedure) c.2
  | silent => exact extents.mono (UInt32.le_of_lt below)

/-! ## All lines -/

/-- What every code line keeps, all lines keep. -/
theorem foldl_advance_keeps {P : Assembly → Prop}
    (keeps : ∀ (scan : Scan) (c : LineNumber × Text), P scan.assembly → P (scan.advance c).assembly)
    (codes : List (LineNumber × Text)) {scan : Scan} (start : P scan.assembly) :
    P (codes.foldl Scan.advance scan).assembly := by
  induction codes generalizing scan with
  | nil => exact start
  | cons c codes ih => exact ih (keeps scan c start)

theorem foldl_advance_extents {codes : List (LineNumber × Text)} {last : LineNumber} {scan : Scan}
    (extents : scan.assembly.Extents bound) (ascending : codes.Pairwise fun c d => c.1 < d.1)
    (above : ∀ c ∈ codes, bound < c.1 ∧ c.1 ≤ last) (le : bound ≤ last) :
    (codes.foldl Scan.advance scan).assembly.Extents last := by
  induction codes generalizing scan bound with
  | nil => exact extents.mono le
  | cons c codes ih =>
    obtain ⟨first, rest⟩ := List.pairwise_cons.1 ascending
    obtain ⟨below, within⟩ := above c List.mem_cons_self
    exact ih (advance_extents extents below) rest
      (fun d member => ⟨first d member, (above d (List.mem_cons_of_mem c member)).2⟩) within

/-- **Extents are ordered and disjoint.**  What is recorded of a text lies in order on its lines: paragraphs
one after the other and below the headers of their sections, statements inside their paragraphs, sections
and items each below the one before. -/
theorem ofSource_extents (path : Path) (text : Text) (few : (lines text).length < 2 ^ 32) :
    (Program.ofSource path text).Extents (UInt32.ofNat (lines text).length) := by
  have start : (Scan.mk (start path backendName) true).assembly.Extents 0 := start_extents path backendName
  refine finish_extents (foldl_advance_extents start (numberedCode_ascending (by omega)) (fun c member => ?_) ?_)
  · obtain ⟨n, number, low, high⟩ := number_of_mem_numberedCode member
    have zero : (0 : LineNumber).toNat = 0 := rfl
    rw [number, UInt32.lt_iff_toNat_lt, UInt32.le_iff_toNat_le, toNat_number few, toNat_number (by omega)]
    omega
  · rw [UInt32.le_iff_toNat_le]
    exact Nat.zero_le _

/-- Statements of one line before any paragraph, two sections of one name with a division between them, a
comment and an empty line. -/
def crowded : Text :=
  joinWith ['\n'] (["DATA DIVISION.", "FILE SECTION.", "01 A PIC X.", "* B", "02 C PIC 9.", "PROCEDURE DIVISION.",
    "CALL X PERFORM Y.", "P SECTION.", "Q.", "", "GO TO R.", "ID DIVISION.", "PROCEDURE DIVISION.", "P SECTION.",
    "CALL 'Z'.", "S."].map String.toList)

/-- The crowded text. -/
theorem ofSource_extents_crowded :
    (lines crowded).length < 2 ^ 32 ∧
      (Program.ofSource ⟨"/src/crowded.cbl".toList⟩ crowded).Extents (UInt32.ofNat (lines crowded).length) := by
  have few : (lines crowded).length < 2 ^ 32 := by decide +kernel
  exact ⟨few, ofSource_extents ⟨"/src/crowded.cbl".toList⟩ crowded few⟩

end CobolAtlas.Source
