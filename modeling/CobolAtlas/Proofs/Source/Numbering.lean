/-
# CobolAtlas.Proofs.Source.Numbering -- numbered texts

Numbers in the sequence areas of a text change its program only through the lines of six blanks, whose numbers are
read as program text.  Two things can come of that.  A paragraph header below such a line is taken for the rest of a
sentence, and its paragraph is lost for good (`headed_read_lt`).  Or the paragraph that is open there comes to reach
the line, where it had ended above it.

`ofSource_number_iff` says that nothing else can happen: a program stays as it is exactly if every such line of the
procedure division is `Harmless`.  The scan of the numbered text `Follows` that of the other one line by line.  Which
numbers the lines bear does not matter (`ofSource_renumber`).
-/
import CobolAtlas.Proofs.Program.Observing
import CobolAtlas.Proofs.Source.Division
import CobolAtlas.Proofs.Source.Relabelling
import CobolAtlas.Proofs.Source.SequenceArea

namespace CobolAtlas.Source

set_option autoImplicit false

open Text

/-! ## Reading on -/

/-- The scan after further lines, the first of which has the number `first`. -/
def Scan.read (s : Scan) (first : Nat) (lines : List Text) : Scan := (numberedCode first lines).foldl Scan.advance s

/-- Does the code line open a paragraph, where the scan has come to? -/
def Scan.OpensParagraph (s : Scan) (c : LineNumber × Text) : Prop :=
  ∃ name line, .paragraph name line ∈ lineEvents s.assembly.division s.sentenceStart c.1 c.2

section Read

variable {s : Scan} {first : Nat} {line code : Text} {rest : List Text}

theorem read_skip (skipped : code? line = none) : s.read first (line :: rest) = s.read (first + 1) rest := by
  rw [Scan.read, numberedCode, skipped]
  rfl

theorem read_code (read : code? line = some code) :
    s.read first (line :: rest) = (s.advance (UInt32.ofNat first, code)).read (first + 1) rest := by
  rw [Scan.read, numberedCode, read]
  rfl

theorem read_cons : s.read first (line :: rest) = (s.read first [line]).read (first + 1) rest := by
  cases read : code? line with
  | none =>
    rw [read_skip read, read_skip read]
    rfl
  | some code =>
    rw [read_code read, read_code read]
    rfl

/-- What the lines below lead to, the scan above them leads to. -/
theorem leadsTo_of_read {final : List Paragraph} {codes : List (LineNumber × Text)}
    (leads : (codes.foldl Scan.advance s).assembly.LeadsTo final) : s.assembly.LeadsTo final := by
  induction codes generalizing s with
  | nil => exact leads
  | cons c codes ih => exact Assembly.leadsTo_of_run (ih leads)

/-- The division after a line is the one that the line names, or else the one before it. -/
theorem advance_division (s : Scan) (c : LineNumber × Text) :
    (s.advance c).assembly.division = ((divisionName? c.2).map Name.ofDivision).or s.assembly.division := by
  cases named : divisionName? c.2 with
  | some name =>
    have header : header? c.2 = some (.division name) := header?_eq_division_iff.2 named
    rw [Scan.advance, (Report.header _ header).eq]
    rfl
  | none =>
    apply (Assembly.run_divisions fun name line member => ?_).2
    have found := (division_mem_lineEvents_iff.1 member).2
    rw [named] at found
    cases found

theorem advance_division_congr {t : Scan} (same : t.assembly.division = s.assembly.division) (c : LineNumber × Text) :
    (t.advance c).assembly.division = (s.advance c).assembly.division := by
  rw [advance_division, advance_division, same]

/-- Paragraphs open in the procedure division only. -/
theorem Scan.OpensParagraph.division {c : LineNumber × Text} (opens : s.OpensParagraph c) :
    s.assembly.division = some "PROCEDURE".toList := by
  obtain ⟨name, l, member⟩ := opens
  obtain ⟨-, -, inProcedure, -⟩ := paragraph_mem_lineEvents_iff.1 member
  exact inProcedure

/-- In the middle of a sentence no paragraph opens. -/
theorem paragraph_notMem_lineEvents {division : Option Text} {line l : LineNumber} {code name : Text} :
    Event.paragraph name l ∉ lineEvents division false line code := by
  intro member
  obtain ⟨-, -, -, opened⟩ := paragraph_mem_lineEvents_iff.1 member
  cases opened

/-- The start of a sentence matters to paragraph headers only. -/
theorem lineEvents_false {division : Option Text} {sentenceStart : Bool} {line : LineNumber} {code : Text}
    (others : ∀ name l, Event.paragraph name l ∉ lineEvents division sentenceStart line code) :
    lineEvents division false line code = lineEvents division sentenceStart line code := by
  have report := report_lineEvents division sentenceStart line code
  generalize lineEvents division sentenceStart line code = events at report others ⊢
  cases report with
  | header h found => exact (Report.header h found).eq
  | item item noHeader inData found => exact (Report.item item noHeader inData found).eq
  | paragraph name => exact absurd List.mem_cons_self (others name line)
  | statements noHeader inProcedure => exact (Report.statements noHeader inProcedure rfl).eq
  | silent noHeader noItem elsewhere => exact (Report.silent noHeader noItem elsewhere).eq

end Read

/-! ## Headers that are lost -/

section Headers

open Assembly

variable {o n : Scan} {ls ls' : List Text}

theorem headed_advance (s : Scan) (c : LineNumber × Text) :
    (s.advance c).assembly.headed =
      s.assembly.headed + (lineEvents s.assembly.division s.sentenceStart c.1 c.2).countP opensHeaded :=
  headed_run _ _

theorem headed_advance_number {number : Text} (isNumber : IsNumber number) (s : Scan) (line : LineNumber) :
    (s.advance (line, number)).assembly.headed = s.assembly.headed ∧
      (s.advance (line, number)).assembly.division = s.assembly.division ∧
        (s.advance (line, number)).sentenceStart = false := by
  rw [advance_number isNumber]
  refine ⟨?_, ?_, rfl⟩ <;> dsimp only <;> split <;> rfl

theorem countP_opensHeaded_eq_zero {division : Option Text} {line : LineNumber} {code : Text} :
    (lineEvents division false line code).countP opensHeaded = 0 := by
  rw [List.countP_eq_zero]
  intro e member
  cases e with
  | paragraph name l => exact absurd member paragraph_notMem_lineEvents
  | _ => exact nofun

theorem countP_opensHeaded_pos {c : LineNumber × Text} (opens : o.OpensParagraph c) :
    0 < (lineEvents o.assembly.division o.sentenceStart c.1 c.2).countP opensHeaded := by
  obtain ⟨name, line, member⟩ := opens
  obtain ⟨-, -, -, opened⟩ := paragraph_mem_lineEvents_iff.1 member
  have named : Name.clean name ≠ Program.entryParagraph := clean_ne_entryParagraph (isWord_of_paragraphHeader? opened)
  exact List.countP_pos_iff.2 ⟨_, member, bne_iff_ne.2 named⟩

/-- A code line opens no paragraph in the middle of a sentence that it would not open at its start. -/
theorem headed_advance_le (division : n.assembly.division = o.assembly.division)
    (start : n.sentenceStart = true → o.sentenceStart = true) (c : LineNumber × Text) :
    (n.advance c).assembly.headed + o.assembly.headed ≤ (o.advance c).assembly.headed + n.assembly.headed := by
  rw [headed_advance, headed_advance, division]
  cases starts : n.sentenceStart with
  | false =>
    rw [countP_opensHeaded_eq_zero]
    omega
  | true =>
    rw [start starts]
    omega

theorem headed_advance_lt (middle : n.sentenceStart = false) {c : LineNumber × Text} (opens : o.OpensParagraph c) :
    (n.advance c).assembly.headed + o.assembly.headed < (o.advance c).assembly.headed + n.assembly.headed := by
  have opened := countP_opensHeaded_pos opens
  rw [headed_advance, headed_advance, middle, countP_opensHeaded_eq_zero]
  omega

/-- No more sentences start where the lines are numbered, and so no more paragraphs open. -/
theorem headed_read_le (numbered : List.Forall₂ Numbered ls ls') {first : Nat}
    (division : n.assembly.division = o.assembly.division) (start : n.sentenceStart = true → o.sentenceStart = true) :
    (n.read first ls').assembly.headed + o.assembly.headed ≤ (o.read first ls).assembly.headed + n.assembly.headed := by
  induction numbered generalizing first o n with
  | nil => exact Nat.le_of_eq (Nat.add_comm _ _)
  | @cons line line' ls ls' line_ numbered ih =>
    rcases line_.cases with ⟨rfl, isNumber⟩ | ⟨-, same⟩
    · obtain ⟨headed, division', middle⟩ := headed_advance_number isNumber n (UInt32.ofNat first)
      rw [read_skip code?_blankArea, read_code (code?_number isNumber), ← headed]
      apply ih (division'.trans division)
      intro starts
      rw [middle] at starts
      cases starts
    · cases read : code? line with
      | none =>
        rw [read_skip read, read_skip (same.trans read)]
        exact ih division start
      | some code =>
        rw [read_code read, read_code (same.trans read)]
        have here := headed_advance_le division start (UInt32.ofNat first, code)
        have below := @ih (o.advance (UInt32.ofNat first, code)) (n.advance (UInt32.ofNat first, code)) (first + 1)
          (advance_division_congr division _) fun ends => ends
        omega

/-- A paragraph header that comes next in the middle of a sentence is lost for good. -/
theorem headed_read_lt (numbered : List.Forall₂ Numbered ls ls') {first : Nat}
    (division : n.assembly.division = o.assembly.division) (middle : n.sentenceStart = false)
    {c : LineNumber × Text} (next : (numberedCode first ls).head? = some c) (opens : o.OpensParagraph c) :
    (n.read first ls').assembly.headed + o.assembly.headed < (o.read first ls).assembly.headed + n.assembly.headed := by
  induction numbered generalizing first n with
  | nil => cases next
  | @cons line line' ls ls' line_ numbered ih =>
    rcases line_.cases with ⟨rfl, isNumber⟩ | ⟨-, same⟩
    · obtain ⟨headed, division', middle'⟩ := headed_advance_number isNumber n (UInt32.ofNat first)
      rw [numberedCode, code?_blankArea] at next
      rw [read_skip code?_blankArea, read_code (code?_number isNumber), ← headed]
      exact ih (division'.trans division) middle' next
    · cases read : code? line with
      | none =>
        rw [numberedCode, read] at next
        rw [read_skip read, read_skip (same.trans read)]
        exact ih division middle next
      | some code =>
        rw [numberedCode, read] at next
        obtain rfl : (UInt32.ofNat first, code) = c := Option.some.inj next
        rw [read_code read, read_code (same.trans read)]
        have here := headed_advance_lt middle opens
        have below := @headed_read_le (o.advance (UInt32.ofNat first, code)) (n.advance (UInt32.ofNat first, code)) _ _
          numbered (first + 1) (advance_division_congr division _) fun ends => ends
        omega

end Headers

/-! ## Programs -/

/-- A bare number below the lines of the scan, on the line `number`, changes nothing: the next code line opens no
paragraph, and the paragraph that is open ends there or below in the end.  That paragraph is the next one of the
program after those that are closed. -/
structure Harmless (final : List Paragraph) (s : Scan) (number : Nat) (below : List Text) : Prop where
  continues : ∀ c, (numberedCode (number + 1) below).head? = some c → ¬ s.OpensParagraph c
  reached : ∀ p, s.assembly.openParagraph = some p → ∀ q, final[s.assembly.closedParagraphs.length]? = some q →
    UInt32.ofNat number ≤ q.endLine

/-- In the procedure division every line without indicator column can bear a number. -/
def HarmlessBelow (final : List Paragraph) (s : Scan) (first : Nat) (lines : List Text) : Prop :=
  ∀ k, lines[k]? = some blankArea → (s.read first (lines.take k)).assembly.division = some "PROCEDURE".toList →
    Harmless final (s.read first (lines.take k)) (first + k) (lines.drop (k + 1))

theorem harmlessBelow_cons {final : List Paragraph} {s : Scan} {first : Nat} {line : Text} {rest : List Text} :
    HarmlessBelow final s first (line :: rest) ↔
      (line = blankArea → s.assembly.division = some "PROCEDURE".toList → Harmless final s first rest) ∧
        HarmlessBelow final (s.read first [line]) (first + 1) rest := by
  unfold HarmlessBelow
  rw [← Nat.and_forall_add_one]
  refine and_congr ?_ (forall_congr' fun k => ?_)
  · rw [List.getElem?_cons_zero, Option.some.injEq]
    rfl
  · rw [List.getElem?_cons_succ, List.take_succ_cons, List.drop_succ_cons, read_cons,
      show first + (k + 1) = first + 1 + k by omega]

section Programs

open Assembly

variable {final : List Paragraph} {first : Nat} {o n : Scan} {ls ls' : List Text}

/-- The second scan differs from the first in the last line seen, where it is ahead, and perhaps in the start of a
sentence, where the line that comes next opens no paragraph. -/
structure Follows (final : List Paragraph) (first : Nat) (ls : List Text) (o n : Scan) : Prop where
  same : ∃ m, n.assembly = o.assembly.reaching m ∧ Ahead final o.assembly m
  start : n.sentenceStart = o.sentenceStart ∨
    n.sentenceStart = false ∧ ∀ c, (numberedCode first ls).head? = some c → ¬ o.OpensParagraph c

theorem Follows.division (follows : Follows final first ls o n) : n.assembly.division = o.assembly.division := by
  obtain ⟨m, same, -⟩ := follows.same
  rw [same]
  rfl

/-- A code line that both read. -/
theorem Follows.advance {line code : Text} (follows : Follows final first (line :: ls) o n) (read : code? line = some code)
    (leads : (o.advance (UInt32.ofNat first, code)).assembly.LeadsTo final) :
    Follows final (first + 1) ls (o.advance (UInt32.ofNat first, code)) (n.advance (UInt32.ofNat first, code)) := by
  have next : (numberedCode first (line :: ls)).head? = some (UInt32.ofNat first, code) := by
    rw [numberedCode, read]
    rfl
  have events : lineEvents n.assembly.division n.sentenceStart (UInt32.ofNat first) code =
      lineEvents o.assembly.division o.sentenceStart (UInt32.ofNat first) code := by
    rw [follows.division]
    rcases follows.start with starts | ⟨middle, continues⟩
    · rw [starts]
    · rw [middle]
      exact lineEvents_false fun name l member => continues _ next ⟨name, l, member⟩
  obtain ⟨m, same, ahead⟩ := follows.same
  obtain ⟨m', stepped, ahead'⟩ := run_reaching ahead leads
  refine ⟨⟨m', ?_, ahead'⟩, .inl rfl⟩
  rw [Scan.advance, events, same]
  exact stepped

/-- A bare number that only the second reads. -/
theorem Follows.number {number : Text} (follows : Follows final first (blankArea :: ls) o n) (isNumber : IsNumber number)
    (harmless : o.assembly.division = some "PROCEDURE".toList → Harmless final o first ls) :
    Follows final (first + 1) ls o (n.advance (UInt32.ofNat first, number)) := by
  obtain ⟨m, same, ahead⟩ := follows.same
  rw [advance_number isNumber, follows.division]
  refine ⟨?_, .inr ⟨rfl, fun c next opens => (harmless opens.division).continues c next opens⟩⟩
  by_cases inProcedure : o.assembly.division = some "PROCEDURE".toList
  · rw [if_pos inProcedure, same]
    exact ⟨max m (UInt32.ofNat first), rfl, UInt32.le_trans ahead.seen (LineNumber.left_le_max _ _),
      fun p isOpen q there => LineNumber.max_le (ahead.within p isOpen q there)
        ((harmless inProcedure).reached p isOpen q there)⟩
  · rw [if_neg inProcedure]
    exact ⟨m, same, ahead⟩

/-- Where nothing changes in the end, a bare number was harmless. -/
theorem Follows.harmless {number : Text} (follows : Follows final first (blankArea :: ls) o n)
    (numbered : List.Forall₂ Numbered ls ls') (isNumber : IsNumber number)
    (unchanged : ((n.advance (UInt32.ofNat first, number)).read (first + 1) ls').assembly.finish =
      (o.read (first + 1) ls).assembly.finish)
    (paragraphs : (o.read (first + 1) ls).assembly.finish.paragraphs = final)
    (inProcedure : o.assembly.division = some "PROCEDURE".toList) : Harmless final o first ls := by
  obtain ⟨m, same, -⟩ := follows.same
  have advanced : n.advance (UInt32.ofNat first, number) =
      ⟨o.assembly.reaching (max m (UInt32.ofNat first)), false⟩ := by
    rw [advance_number isNumber, follows.division, if_pos inProcedure, same]
    rfl
  rw [advanced] at unchanged
  refine ⟨fun c next opens => ?_, fun p isOpen q there => ?_⟩
  · have lost := headed_read_lt (o := o) (n := ⟨o.assembly.reaching (max m (UInt32.ofNat first)), false⟩) numbered rfl rfl
      next opens
    rw [← headed_finish, unchanged, headed_finish] at lost
    exact absurd lost (Nat.lt_irrefl _)
  · -- the paragraph is open in both scans, and the second has seen the number
    have leads := leadsTo_of_read (leadsTo_finish (Scan.read ⟨o.assembly.reaching (max m (UInt32.ofNat first)), false⟩
      (first + 1) ls').assembly)
    obtain ⟨r, there', reaches⟩ := leads.opened p isOpen
    rw [unchanged, paragraphs] at there'
    cases there.symm.trans there'
    exact UInt32.le_trans (UInt32.le_trans (LineNumber.right_le_max _ _) (LineNumber.right_le_max _ _)) reaches

/-- What follows makes the same program if and only if the bare numbers that follow are harmless. -/
theorem Follows.finish_iff (numbered : List.Forall₂ Numbered ls ls') (follows : Follows final first ls o n)
    (paragraphs : (o.read first ls).assembly.finish.paragraphs = final) :
    (n.read first ls').assembly.finish = (o.read first ls).assembly.finish ↔ HarmlessBelow final o first ls := by
  induction numbered generalizing first o n with
  | nil =>
    refine iff_of_true ?_ fun k there => nomatch there
    obtain ⟨m, same, ahead⟩ := follows.same
    show n.assembly.finish = o.assembly.finish
    rw [same]
    exact finish_reaching (paragraphs ▸ ahead)
  | @cons line line' ls ls' line_ numbered ih =>
    rw [harmlessBelow_cons]
    rcases line_.cases with ⟨rfl, isNumber⟩ | ⟨indicated, reads⟩
    · have skipped : o.read first [blankArea] = o := read_skip code?_blankArea
      rw [read_skip code?_blankArea] at paragraphs
      rw [read_skip code?_blankArea, read_code (code?_number isNumber), skipped]
      constructor
      · intro unchanged
        have harmless := follows.harmless numbered isNumber unchanged paragraphs
        exact ⟨fun _ => harmless, (ih (follows.number isNumber harmless) paragraphs).1 unchanged⟩
      · intro harmless
        exact (ih (follows.number isNumber (harmless.1 rfl)) paragraphs).2 harmless.2
    · have here : (line = blankArea → o.assembly.division = some "PROCEDURE".toList → Harmless final o first ls) ∧
          HarmlessBelow final (o.read first [line]) (first + 1) ls ↔
            HarmlessBelow final (o.read first [line]) (first + 1) ls :=
        and_iff_right fun bare => absurd bare indicated
      rw [here]
      cases read : code? line with
      | none =>
        have skipped : o.read first [line] = o := read_skip read
        rw [read_skip read] at paragraphs
        rw [read_skip read, read_skip (reads.trans read), skipped]
        refine ih ⟨follows.same, ?_⟩ paragraphs
        have start := follows.start
        rwa [numberedCode, read] at start
      | some code =>
        have stepped : o.read first [line] = o.advance (UInt32.ofNat first, code) := read_code read
        rw [read_code read] at paragraphs
        rw [read_code read, read_code (reads.trans read), stepped]
        exact ih (follows.advance read (paragraphs ▸ leadsTo_of_read (leadsTo_finish _))) paragraphs

end Programs

/-- The same lines under other numbers are read the same. -/
theorem read_renumber {ls ls' : List Text} (numbered : List.Forall₂ Numbered ls ls') {ls'' : List Text}
    (renumbered : List.Forall₂ Numbered ls ls'') (s : Scan) (first : Nat) : s.read first ls'' = s.read first ls' := by
  induction numbered generalizing ls'' s first with
  | nil =>
    cases renumbered
    rfl
  | cons line_ _ ih =>
    cases renumbered with
    | cons line'_ renumbered =>
      rcases line_.cases with ⟨rfl, isNumber⟩ | ⟨indicated, reads⟩
      · rcases line'_.cases with ⟨-, isNumber'⟩ | ⟨indicated, -⟩
        · rw [read_code (code?_number isNumber), read_code (code?_number isNumber'), advance_number isNumber,
            advance_number isNumber']
          exact ih renumbered _ _
        · exact absurd rfl indicated
      · rcases line'_.cases with ⟨bare, -⟩ | ⟨-, reads'⟩
        · exact absurd bare indicated
        · cases read : code? _ with
          | none =>
            rw [read_skip (reads.trans read), read_skip (reads'.trans read)]
            exact ih renumbered _ _
          | some code =>
            rw [read_code (reads.trans read), read_code (reads'.trans read)]
            exact ih renumbered _ _

/-- Which numbers the lines bear does not matter. -/
theorem ofSource_renumber (path : Path) {text text' text'' : Text}
    (numbered : List.Forall₂ Numbered (lines text) (lines text'))
    (renumbered : List.Forall₂ Numbered (lines text) (lines text'')) :
    Program.ofSource path text'' = Program.ofSource path text' :=
  congrArg (fun s : Scan => s.assembly.finish) (read_renumber numbered renumbered _ 1)

/-- **Numbers in the sequence area.**  A program stays as it is when its lines are numbered if and only if every line
of six blanks and nothing else, as far as it stands in the procedure division, can bear its number. -/
theorem ofSource_number_iff (path : Path) {text text' : Text}
    (numbered : List.Forall₂ Numbered (lines text) (lines text')) :
    Program.ofSource path text' = Program.ofSource path text ↔
      HarmlessBelow (Program.ofSource path text).paragraphs ⟨Assembly.start path backendName, true⟩ 1 (lines text) := by
  have leads : (Assembly.start path backendName).LeadsTo (Program.ofSource path text).paragraphs :=
    leadsTo_of_read (s := ⟨Assembly.start path backendName, true⟩) (Assembly.leadsTo_finish (scan path text).assembly)
  exact Follows.finish_iff numbered ⟨⟨_, rfl, leads.ahead⟩, .inl rfl⟩ rfl

/-- A program with a blank line below a paragraph header. -/
def spaced : Text :=
  joinWith ['\n'] (["       PROCEDURE DIVISION.", "       ONLY-PARA.", "      ", "           GOBACK.",
    "      *    DONE."].map String.toList)

/-- Its lines numbered. -/
def spacedNumbered : Text :=
  joinWith ['\n'] (["000100 PROCEDURE DIVISION.", "000200 ONLY-PARA.", "000300", "000400     GOBACK.",
    "000500*    DONE."].map String.toList)

/-- Inside the paragraph the bare number is harmless. -/
theorem ofSource_number_iff_spaced :
    List.Forall₂ Numbered (lines spaced) (lines spacedNumbered) ∧
      (lines spaced)[2]? = some blankArea ∧
      Program.ofSource ⟨"/src/spaced.cbl".toList⟩ spacedNumbered = Program.ofSource ⟨"/src/spaced.cbl".toList⟩ spaced ∧
      HarmlessBelow (Program.ofSource ⟨"/src/spaced.cbl".toList⟩ spaced).paragraphs
        ⟨Assembly.start ⟨"/src/spaced.cbl".toList⟩ backendName, true⟩ 1 (lines spaced) := by
  have numbered : List.Forall₂ Numbered (lines spaced) (lines spacedNumbered) := by decide +kernel
  have unchanged : Program.ofSource ⟨"/src/spaced.cbl".toList⟩ spacedNumbered =
      Program.ofSource ⟨"/src/spaced.cbl".toList⟩ spaced := by decide +kernel
  exact ⟨numbered, by decide +kernel, unchanged,
    (ofSource_number_iff ⟨"/src/spaced.cbl".toList⟩ numbered).1 unchanged⟩

/-- A program with a blank line between two paragraphs. -/
def parted : Text :=
  joinWith ['\n'] (["       PROCEDURE DIVISION.", "       FIRST-PARA.", "           GOBACK.", "      ",
    "       LAST-PARA.", "           GOBACK."].map String.toList)

/-- Its lines numbered. -/
def partedNumbered : Text :=
  joinWith ['\n'] (["000100 PROCEDURE DIVISION.", "000200 FIRST-PARA.", "000300     GOBACK.", "000400",
    "000500 LAST-PARA.", "000600     GOBACK."].map String.toList)

/-- Between the two paragraphs the bare number is not harmless: the second header goes on with the sentence that the
number is taken to begin, and the first paragraph runs to the end. -/
theorem ofSource_number_parted :
    List.Forall₂ Numbered (lines parted) (lines partedNumbered) ∧
      (Program.ofSource ⟨"/src/PARTED.cbl".toList⟩ parted).paragraphs.map (fun p => (p.name, p.line, p.endLine)) =
        [("FIRST-PARA".toList, 2, 3), ("LAST-PARA".toList, 5, 6)] ∧
      (Program.ofSource ⟨"/src/PARTED.cbl".toList⟩ partedNumbered).paragraphs.map (fun p => (p.name, p.line, p.endLine)) =
        [("FIRST-PARA".toList, 2, 6)] ∧
      Program.ofSource ⟨"/src/PARTED.cbl".toList⟩ partedNumbered ≠ Program.ofSource ⟨"/src/PARTED.cbl".toList⟩ parted := by
  decide +kernel

end CobolAtlas.Source
