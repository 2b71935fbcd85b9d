/-
# CobolAtlas.Proofs.Skeleton.SharedLine -- lines that statements share

A `SharedLine` is a line of the procedure division with any number of statements, one after the other, under a margin
that holds them.  It is read back as its row of statements (`SharedLine.code?_line`) and reports the first of them of
each kind (`SharedLine.lineEvents_code`).  What lines report goes to the paragraph that is open, and each CALL also to
the edges (`advance_line`, `foldl_advance_lines`).

The main statement is `advance_sharedLine`: how much of a line is recorded, and that statements on lines of their own
are all recorded.
-/
import CobolAtlas.Proofs.Skeleton.Assembling

namespace CobolAtlas.Skeleton

set_option autoImplicit false

open Text Source Assembly

/-! ## A row on a line -/

section Texts

variable {period : Bool} {pieces : List Text}

theorem newline_notMem_trail (oneLine : ∀ piece ∈ pieces, '\n' ∉ piece) (gap : Nat → Gap) :
    '\n' ∉ trail period gap pieces := by
  induction pieces generalizing gap with
  | nil =>
    intro member
    cases eq_period_of_mem_ending member
  | cons piece pieces ih =>
    obtain ⟨here, later⟩ := List.forall_mem_cons.1 oneLine
    rw [trail, List.mem_append, List.mem_append, not_or, not_or]
    exact ⟨(gap 0).oneLine, here, ih later _⟩

theorem head?_trail_ne (gap : Nat → Gap) (pieces : List Text) : (trail period gap pieces).head? ≠ some '>' := by
  cases pieces with
  | nil => cases period <;> rintro ⟨⟩
  | cons piece pieces =>
    obtain ⟨c, blanks, text⟩ := List.exists_cons_of_ne_nil (gap 0).nonempty
    have blank : isBlank c = true := (gap 0).isBlank_of_mem (by rw [text]; exact List.mem_cons_self)
    rw [trail, text]
    rintro ⟨⟩
    cases blank

/-- Neither gaps nor pieces make a comment of a row. -/
theorem beforeComment_trail (whole : ∀ piece ∈ pieces, beforeComment piece = piece) (gap : Nat → Gap) :
    beforeComment (trail period gap pieces) = trail period gap pieces := by
  induction pieces generalizing gap with
  | nil => cases period <;> rfl
  | cons piece pieces ih =>
    obtain ⟨here, later⟩ := List.forall_mem_cons.1 whole
    have notBlank : ∀ c ∈ (gap 0).text, c ≠ '>' ∧ c ≠ '*' := by
      intro c member
      have blank := (gap 0).isBlank_of_mem member
      constructor <;> rintro rfl <;> cases blank
    have blanks : beforeComment (gap 0).text = (gap 0).text :=
      beforeComment_of_not_mem fun member => (notBlank _ member).1 rfl
    have notStar : (gap 0).text.getLast? ≠ some '*' := fun last => (notBlank _ (List.mem_of_getLast? last)).2 rfl
    rw [trail, beforeComment_append blanks (absurd · notStar),
      beforeComment_append here fun _ => head?_trail_ne _ pieces, ih later]

end Texts

/-- A statement ends with a letter, a digit or a quote. -/
theorem Transfer.exists_last (t : Transfer) :
    ∃ before last, t.pieces = before ++ [last] ∧ last.getLast?.any isFinal = true := by
  have ofName : ∀ u : UserName, u.text.getLast?.any isFinal = true := by
    intro u
    obtain ⟨c, last, alphanum⟩ := (Option.any_eq_true _ _).1 u.ends
    rw [last, Option.any_some, isFinal, alphanum]
    rfl
  cases t with
  | callLiteral l =>
    refine ⟨["CALL".toList], l.quoted, rfl, ?_⟩
    rw [QuotedLiteral.quoted, ← List.cons_append, List.getLast?_concat, Option.any_some, isFinal, l.quotes, Bool.or_true]
  | callData name => exact ⟨["CALL".toList], name.text, rfl, ofName name⟩
  | perform first notCount last =>
    cases last with
    | none => exact ⟨["PERFORM".toList], first.text, rfl, ofName first⟩
    | some last => exact ⟨["PERFORM".toList, first.text, "THRU".toList], last.text, rfl, ofName last⟩
  | goTo target => exact ⟨["GO".toList, "TO".toList], target.text, rfl, ofName target⟩

/-- A row of statements can be put on a line. -/
theorem isCode_row (t : Transfer) (ts : List Transfer) (period : Bool) (gap : Nat → Gap) :
    IsCode (row period gap ((t :: ts).flatMap (·.pieces))) := by
  have ofPiece : ∀ piece ∈ (t :: ts).flatMap (·.pieces), '\n' ∉ piece ∧ beforeComment piece = piece := by
    intro piece member
    obtain ⟨u, -, inside⟩ := List.mem_flatMap.1 member
    exact ⟨(Construct.transfer u).oneLine_of_mem piece inside, (Construct.transfer u).beforeComment_of_mem piece inside⟩
  have verbs : ∀ k ∈ searchedVerbs, k.head?.any Char.isAlphanum = true := by decide
  obtain ⟨c, verb, starts, alphanum⟩ := exists_cons_of_head?_any (verbs t.verb t.verb_mem)
  obtain ⟨operands, first⟩ := t.exists_pieces
  have pieces : (t :: ts).flatMap (·.pieces) = t.verb :: (operands ++ ts.flatMap (·.pieces)) := by
    rw [List.flatMap_cons, first, List.cons_append]
  refine ⟨?_, ?_, ?_, ?_⟩
  · exact ⟨c, _, by rw [pieces, row, starts, List.cons_append], alphanum⟩
  · -- the row ends as its last statement does, or with the period
    obtain ⟨us, u, last⟩ := (List.eq_nil_or_concat (t :: ts)).resolve_left (List.cons_ne_nil t ts)
    obtain ⟨before, final, ofLast, isFinal_⟩ := u.exists_last
    obtain ⟨later, split⟩ := row_append period gap (us.flatMap (·.pieces) ++ before) final []
    have ended : (final ++ ending period).getLast?.any isFinal = true := by
      cases period with
      | true => rw [ending, List.getLast?_concat]; rfl
      | false => rwa [ending, List.append_nil]
    obtain ⟨d, isLast, final_⟩ := (Option.any_eq_true _ _).1 ended
    rw [last, List.concat_eq_append, List.flatMap_append, List.flatMap_singleton, ofLast, ← List.append_assoc, split, row,
      trail, List.getLast?_append, isLast, Option.some_or, Option.any_some, final_]
  · rw [pieces] at ofPiece ⊢
    obtain ⟨here, later⟩ := List.forall_mem_cons.1 ofPiece
    rw [row, List.mem_append, not_or]
    exact ⟨here.1, newline_notMem_trail (fun piece among => (later piece among).1) gap⟩
  · rw [pieces] at ofPiece ⊢
    obtain ⟨here, later⟩ := List.forall_mem_cons.1 ofPiece
    rw [row, beforeComment_append here.2 fun _ => head?_trail_ne gap _,
      beforeComment_trail (fun piece among => (later piece among).2) gap]

/-- A line of the procedure division: statements with a gap between two pieces, and how they are put on the line. -/
structure SharedLine where
  transfers : List Transfer
  gap : Nat → Gap
  period : Bool
  margin : Margin
  nonempty : transfers ≠ [] := by decide
  holds : margin.Holds (row period gap (transfers.flatMap (·.pieces)))

namespace SharedLine

variable (l : SharedLine)

def code : Text := row l.period l.gap (l.transfers.flatMap (·.pieces))

def line : Text := l.margin.place l.code

/-- The statements that the line gives as number `n`. -/
def given (n : Nat) (l : SharedLine) : List Statement := (recorded l.transfers).map (Transfer.record n)

theorem code?_line : Source.code? l.line = some l.code := by
  obtain ⟨t, ts, transfers⟩ := List.exists_cons_of_ne_nil l.nonempty
  have isCode : IsCode l.code := by
    rw [code, transfers]
    exact isCode_row t ts l.period l.gap
  exact isCode.code?_place l.holds

/-- **A line reports the first of its statements of each kind.** -/
theorem lineEvents_code (sentenceStart : Bool) (n : Nat) :
    lineEvents (some Division.procedure.name) sentenceStart (UInt32.ofNat n) l.code =
      (l.given n).map .statement ++ [.observe (UInt32.ofNat n)] := by
  have found : statements (UInt32.ofNat n) l.code = l.given n := statements_row l.transfers l.period l.gap n
  obtain ⟨t, ts, transfers⟩ := List.exists_cons_of_ne_nil l.nonempty
  have noHeader : header? l.code = none := by
    rw [code, transfers]
    exact header?_row l.period t ts l.gap
  have noParagraph : paragraphHeader? sentenceStart l.code = none := by
    rw [code, transfers]
    exact paragraphHeader?_row l.period sentenceStart t ts l.gap
  rw [← found]
  exact (Report.statements noHeader rfl noParagraph).eq

end SharedLine

/-! ## What lines add to a paragraph -/

section Adding

/-- The edges of the CALLs among statements. -/
def edges (file paragraph : Text) (ss : List Statement) : List CallEdge :=
  (ss.filter fun s => s.kind = .call).map (edge file paragraph)

theorem edges_append (file paragraph : Text) (ss ss' : List Statement) :
    edges file paragraph (ss ++ ss') = edges file paragraph ss ++ edges file paragraph ss' := by
  rw [edges, List.filter_append, List.map_append, edges, edges]

/-- An assembly with more statements in its open paragraph `p`, and their edges. -/
def adding (p : Paragraph) (ss : List Statement) (last : LineNumber) (a : Assembly) : Assembly :=
  { a with
    openParagraph := some { p with statements := p.statements ++ ss }
    calls := a.calls ++ edges a.file p.name ss
    lastLine := last }

variable {a : Assembly} {p : Paragraph}

theorem addStatement_open (isOpen : a.openParagraph = some p) (s : Statement) :
    a.addStatement s = adding p [s] (max a.lastLine s.line) a := by
  rw [addStatement, isOpen, Option.isNone_some, Bool.false_and, if_neg (by decide), appendStatement, isOpen]
  by_cases isCall : s.kind = .call
  · simp [adding, edges, observe, isCall]
  · simp [adding, edges, observe, isCall]

theorem run_statements (isOpen : a.openParagraph = some p) (ss : List Statement) :
    ∃ last, a.run (ss.map .statement) = adding p ss last a := by
  -- each statement leaves a longer paragraph open
  induction ss generalizing a p with
  | nil =>
    refine ⟨a.lastLine, ?_⟩
    obtain ⟨⟩ := a
    simp only at isOpen
    simp [adding, edges, isOpen]
  | cons s ss ih =>
    have first := addStatement_open isOpen s
    obtain ⟨last, rest⟩ := ih (a := a.addStatement s) (p := { p with statements := p.statements ++ [s] })
      (by rw [first, adding])
    refine ⟨last, ?_⟩
    have both := edges_append a.file p.name [s] ss
    rw [List.map_cons, run_cons, step, rest, first]
    simp only [adding, List.append_assoc, List.singleton_append] at both ⊢
    rw [both]

variable {s : Scan}

/-- A line adds what it gives to the paragraph that is open. -/
theorem advance_line (inProcedure : s.assembly.division = some Division.procedure.name)
    (isOpen : s.assembly.openParagraph = some p) (l : SharedLine) (n : Nat) :
    ∃ last sentenceStart, s.advance (UInt32.ofNat n, l.code) = ⟨adding p (l.given n) last s.assembly, sentenceStart⟩ := by
  obtain ⟨last, run⟩ := run_statements isOpen (l.given n)
  refine ⟨max last (UInt32.ofNat n), l.code.getLast? == some '.', ?_⟩
  rw [Scan.advance, inProcedure, l.lineEvents_code, run_append, run]
  rfl

/-- What lines give that stand one after the other, from number `n` on. -/
def givenFrom (n : Nat) (ls : List SharedLine) : List Statement :=
  (numbered (fun _ => 1) SharedLine.given n ls).flatten

theorem foldl_advance_lines (inProcedure : s.assembly.division = some Division.procedure.name)
    (isOpen : s.assembly.openParagraph = some p) (ls : List SharedLine) (n : Nat) :
    ∃ last sentenceStart, (numberedCode n (ls.map (·.line))).foldl Scan.advance s =
      ⟨adding p (givenFrom n ls) last s.assembly, sentenceStart⟩ := by
  induction ls generalizing s p n with
  | nil =>
    refine ⟨s.assembly.lastLine, s.sentenceStart, ?_⟩
    obtain ⟨⟨⟩, _⟩ := s
    simp only at isOpen
    simp [numberedCode, givenFrom, numbered, adding, edges, isOpen]
  | cons l ls ih =>
    obtain ⟨last, sentenceStart, first⟩ := advance_line inProcedure isOpen l n
    obtain ⟨last', sentenceStart', rest⟩ := ih (s := s.advance (UInt32.ofNat n, l.code))
      (p := { p with statements := p.statements ++ l.given n }) (by rw [first]; exact inProcedure)
      (by rw [first, adding]) (n + 1)
    refine ⟨last', sentenceStart', ?_⟩
    have both := edges_append s.assembly.file p.name (l.given n) (givenFrom (n + 1) ls)
    rw [List.map_cons, numberedCode, l.code?_line, Option.map_some, Option.toList_some, List.singleton_append,
      List.foldl_cons, rest, first]
    simp only [adding, givenFrom, numbered, List.flatten_cons, List.append_assoc] at both ⊢
    rw [both]

end Adding

/-- Statements on lines of their own are all given. -/
theorem givenFrom_apart {ls : List SharedLine} {ts : List Transfer} (apart : ls.map (·.transfers) = ts.map ([·]))
    (n : Nat) : givenFrom n ls = numbered (fun _ => 1) Transfer.record n ts := by
  induction ts generalizing ls n with
  | nil =>
    rw [List.map_eq_nil_iff.1 apart]
    rfl
  | cons t ts ih =>
    obtain ⟨l, ls, rfl, alone, apart⟩ := List.map_eq_cons_iff.1 apart
    have here : l.given n = [t.record n] := by rw [SharedLine.given, alone, recorded_singleton, List.map_singleton]
    have rest := ih apart (n + 1)
    rw [givenFrom] at rest ⊢
    rw [numbered, List.flatten_cons, here, rest, numbered, List.singleton_append]

/-- **How much of a shared line is recorded.**  Of the statements that share a line of an open paragraph the first of
each kind is recorded, CALL before PERFORM before GO TO, with an edge for the CALL.  That is the line as it was written
exactly where its kinds come in that order, each at most once.  On lines of their own the statements are all recorded
as they were written, with an edge for each CALL. -/
theorem advance_sharedLine {s : Scan} {p : Paragraph} (inProcedure : s.assembly.division = some "PROCEDURE".toList)
    (isOpen : s.assembly.openParagraph = some p) (l : SharedLine) (n : Nat) :
    let shared := ((numberedCode n [l.line]).foldl Scan.advance s).assembly
    let given := (recorded l.transfers).map (Transfer.record n)
    shared.openParagraph = some { p with statements := p.statements ++ given } ∧
    shared.calls = s.assembly.calls ++ edges s.assembly.file p.name given ∧
    (given = l.transfers.map (Transfer.record n) ↔
      (l.transfers.map Transfer.kind).Sublist [.call, .perform, .goTo]) ∧
    ∀ ls : List SharedLine, ls.map (·.transfers) = l.transfers.map ([·]) →
      let apart := ((numberedCode n (ls.map (·.line))).foldl Scan.advance s).assembly
      let all := numbered (fun _ => 1) Transfer.record n l.transfers
      apart.openParagraph = some { p with statements := p.statements ++ all } ∧
      apart.calls = s.assembly.calls ++ edges s.assembly.file p.name all := by
  intro shared given
  obtain ⟨last, sentenceStart, alone⟩ := foldl_advance_lines inProcedure isOpen [l] n
  have isGiven : givenFrom n [l] = given := List.append_nil _
  refine ⟨?_, ?_, recorded_iff n, fun ls each => ?_⟩
  · rw [← isGiven]
    exact congrArg (·.assembly.openParagraph) alone
  · rw [← isGiven]
    exact congrArg (·.assembly.calls) alone
  · intro apart all
    obtain ⟨last, sentenceStart, run⟩ := foldl_advance_lines inProcedure isOpen ls n
    rw [givenFrom_apart each] at run
    exact ⟨congrArg (·.assembly.openParagraph) run, congrArg (·.assembly.calls) run⟩

/-! ### A PERFORM and two CALLs -/

/-- The lines before a shared line: a division and a paragraph. -/
def opening : List Text := ["PROCEDURE DIVISION.".toList, "FIRST-PARA.".toList]

/-- The scan of these lines. -/
def opened : Scan := (numberedCode 1 opening).foldl Scan.advance ⟨start ⟨"/src/TWICE.cbl".toList⟩ backendName, true⟩

/-- A PERFORM and two CALLs, with two blanks in every other gap. -/
def crowded : SharedLine where
  transfers :=
    [.perform { text := "STEP-1".toList } (by decide) none,
      .callLiteral { quote := '\'', text := "A".toList },
      .callLiteral { quote := '\'', text := "B".toList }]
  gap k := if k % 2 = 0 then .blank else { text := "  ".toList }
  period := true
  margin := .free 4
  holds := ⟨by decide, nofun⟩

/-- The first CALL is recorded before the PERFORM, and the second is lost. -/
theorem advance_sharedLine_crowded :
    opened.assembly.division = some "PROCEDURE".toList ∧
    opened.assembly.openParagraph = some ⟨"FIRST-PARA".toList, none, 2, 2, []⟩ ∧
    crowded.line = "    PERFORM STEP-1  CALL 'A'  CALL 'B'.".toList ∧
    ((numberedCode 3 [crowded.line]).foldl Scan.advance opened).assembly.openParagraph =
      some ⟨"FIRST-PARA".toList, none, 2, 2,
        [⟨.call, "A".toList, none, 3, false⟩, ⟨.perform, "STEP-1".toList, none, 3, false⟩]⟩ ∧
    ((numberedCode 3 [crowded.line]).foldl Scan.advance opened).assembly.calls =
      [⟨"/src/TWICE.cbl".toList, "FIRST-PARA".toList, 3, "A".toList, none, false⟩] := by
  have inProcedure : opened.assembly.division = some "PROCEDURE".toList := by decide +kernel
  have isOpen : opened.assembly.openParagraph = some ⟨"FIRST-PARA".toList, none, 2, 2, []⟩ := by decide +kernel
  obtain ⟨paragraph, calls, -, -⟩ := advance_sharedLine inProcedure isOpen crowded 3
  exact ⟨inProcedure, isOpen, by decide, paragraph, calls⟩

/-- The text of the three lines does not give the three statements of its last line. -/
theorem ofSource_crowded :
    let text := "PROCEDURE DIVISION.\nFIRST-PARA.\n    PERFORM STEP-1 CALL 'A' CALL 'B'.\n".toList
    let program := Program.ofSource ⟨"/src/TWICE.cbl".toList⟩ text
    program.statements ≠
      [⟨.perform, "STEP-1".toList, none, 3, false⟩, ⟨.call, "A".toList, none, 3, false⟩, ⟨.call, "B".toList, none, 3, false⟩] ∧
    program.statements = [⟨.call, "A".toList, none, 3, false⟩, ⟨.perform, "STEP-1".toList, none, 3, false⟩] ∧
    program.calls = [⟨"/src/TWICE.cbl".toList, "FIRST-PARA".toList, 3, "A".toList, none, false⟩] := by
  decide +kernel

end CobolAtlas.Skeleton
