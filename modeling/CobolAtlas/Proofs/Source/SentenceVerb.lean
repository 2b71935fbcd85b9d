/-
# CobolAtlas.Proofs.Source.SentenceVerb -- statements of one word

A verb with its period (`EXIT.`) looks like a paragraph header.  A line of one word (`OneWord`) is no header of another
kind and holds no statement, for a statement has an operand behind its verb (`OneWord.search_code`); and where the word
is a verb it is no paragraph header either.  So such a line does nothing in any state of the scan but that it is seen
(`advance_sentence`), and no paragraph is named by a verb.

Sections are not looked at in this way.  One opens at every line of the procedure division that reads
`<word> SECTION.`, also where the word is a verb, as in the statement `EXIT SECTION.`: the sections of a program are
those that such lines head (`sectionHeads`).
-/
import CobolAtlas.Proofs.Program.Heads
import CobolAtlas.Proofs.Source.Blocks
import CobolAtlas.Proofs.Source.Masking
import CobolAtlas.Proofs.Source.Numbering
import CobolAtlas.Proofs.Skeleton.Sentence

namespace CobolAtlas

set_option autoImplicit false

namespace Source

open Text Assembly

/-! ## Sentences of one word -/

/-- A word and a period, with blanks before and behind the period. -/
structure OneWord where
  word : Text
  before : Text
  after : Text
  nonempty : word ≠ []
  isWord : IsWord word
  blank : ∀ c ∈ before, isBlank c = true
  blank' : ∀ c ∈ after, isBlank c = true

namespace OneWord

/-- What follows the word. -/
def rest (o : OneWord) : Text := o.before ++ '.' :: o.after

def code (o : OneWord) : Text := o.word ++ o.rest

end OneWord

/-- A line that can be a paragraph header is one word. -/
theorem exists_of_paragraphName? {code w : Text} (named : paragraphName? code = some w) :
    ∃ o : OneWord, o.word = w ∧ o.code = code := by
  simp only [paragraphName?, Option.bind_eq_bind, Option.bind_eq_some_iff, Prod.exists] at named
  obtain ⟨v, rest, read, period⟩ := named
  obtain ⟨rfl, nonempty, word⟩ := of_name? read
  split at period
  · rename_i alone
    obtain rfl := Option.some.inj period
    obtain ⟨before, after, whole, blank, blank'⟩ := exists_trim_append rest
    rw [alone, List.singleton_append] at whole
    exact ⟨⟨v, before, after, nonempty, word, blank, blank'⟩, rfl, congrArg (v ++ ·) whole.symm⟩
  · cases period

namespace OneWord

variable (o : OneWord)

theorem isNameCharacter_of_mem_rest {c : Char} (member : c ∈ o.rest) : isNameCharacter c = false := by
  rcases List.mem_append.1 member with member | member
  · exact isNameCharacter_of_isBlank (o.blank c member)
  · rcases List.mem_cons.1 member with rfl | member
    · rfl
    · exact isNameCharacter_of_isBlank (o.blank' c member)

theorem exists_rest : ∃ c t, o.rest = c :: t := by
  rw [rest]
  cases o.before <;> exact ⟨_, _, rfl⟩

theorem endsName_rest : endsName o.rest = true := by
  obtain ⟨c, t, rest⟩ := o.exists_rest
  have stop : isNameCharacter c = false := o.isNameCharacter_of_mem_rest (rest ▸ List.mem_cons_self)
  simp [rest, endsName, stop]

/-- Between the word and the period there is a gap or nothing. -/
theorem passes_rest :
    skipBlanks? o.rest = none ∧ gap? o.rest = none ∨
      skipBlanks? o.rest = some ('.' :: o.after) ∧ gap? o.rest = some (o.before, '.' :: o.after) := by
  have blank := o.blank
  rw [rest]
  generalize o.before = before at blank ⊢
  cases before with
  | nil => exact .inl ⟨skipBlanks?_eq_none (by decide) _, gap?_eq_none (by decide) _⟩
  | cons c before =>
    have gap : IsGap (c :: before) := ⟨List.cons_ne_nil c before, blank⟩
    have start : ∀ d ∈ ('.' :: o.after).head?, isBlank d = false := by
      rintro d ⟨⟩
      decide
    exact .inr ⟨gap.skipBlanks?_append start, gap.gap?_append start⟩

/-- What needs an operand behind its keyword is not found on a line of one word. -/
theorem search_code {α : Type} (recognise : Text → Option α) {f : Text → Option α} {a : Char} {k : Text}
    (keyword : isKeyword (a :: k) = true) (reads : ∀ t, recognise t = (afterKeyword? (a :: k) t).bind f)
    (stuck : ∀ c t, isBlank c = false → f (c :: t) = none) (stops : f o.rest = none) :
    search recognise o.code = none := by
  have atStart : recognise o.code = none := by
    rw [reads, code, afterKeyword?_append keyword o.endsName_rest]
    cases passed : afterKeyword? (a :: k) o.word with
    | none => rfl
    | some left =>
      cases left with
      | nil => exact stops
      | cons c left => exact stuck c _ (isBlank_of_isNameCharacter (o.isWord.of_afterKeyword? passed).head)
  -- no keyword begins with a blank or a period
  have nowhere : ∀ t, endsName t = true → recognise t = none := by
    intro t ends
    have passed := afterKeyword?_append (w := []) keyword ends
    rw [List.nil_append] at passed
    rw [reads, passed]
    rfl
  have stop {c : Char} (member : c ∈ o.rest) : isNameCharacter c = false := o.isNameCharacter_of_mem_rest member
  obtain ⟨d, t, rest⟩ := o.exists_rest
  rw [code, rest] at atStart ⊢
  rw [rest] at stop
  rw [search_word_cons recognise o.isWord (stop List.mem_cons_self), atStart, Option.none_or, search,
    searchFrom_eq_none_iff]
  intro start others split _
  apply nowhere
  cases others with
  | nil => rfl
  | cons c others =>
    have member : c ∈ t := split ▸ List.mem_append_right start List.mem_cons_self
    simp [endsName, stop (List.mem_cons_of_mem d member)]

theorem mask_code : Literal.mask o.code = o.code := by
  apply Literal.mask_eq_self
  intro c member
  rcases List.mem_append.1 member with member | member
  · exact Literal.spares_isNameCharacter.noQuote o.isWord c member
  rcases List.mem_append.1 member with member | member
  · exact Literal.spares_isBlank.noQuote o.blank c member
  rcases List.mem_cons.1 member with rfl | member
  · rfl
  · exact Literal.spares_isBlank.noQuote o.blank' c member

/-- There is no statement on a line of one word. -/
theorem statements_code (line : LineNumber) : statements line o.code = [] := by
  have call : search callOperand? o.code = none := by
    refine o.search_code callOperand? (a := 'C') (k := "ALL".toList) (by decide) (fun _ => rfl) ?_ ?_
    · intro c t notBlank
      rw [skipBlanks?_eq_none notBlank]
      rfl
    · rcases o.passes_rest with ⟨passed, -⟩ | ⟨passed, -⟩ <;> rw [passed] <;> rfl
  have perform : search performWords? o.code = none := by
    refine o.search_code performWords? (a := 'P') (k := "ERFORM".toList) (by decide) (fun _ => rfl) ?_ ?_
    · intro c t notBlank
      rw [gap?_eq_none notBlank]
      rfl
    · rcases o.passes_rest with ⟨-, passed⟩ | ⟨-, passed⟩ <;> rw [passed] <;> rfl
  have goTo : search goToWord? o.code = none := by
    refine o.search_code goToWord? (a := 'G') (k := "O".toList) (by decide) (fun _ => rfl) ?_ ?_
    · intro c t notBlank
      rw [skipBlanks?_eq_none notBlank]
      rfl
    · rcases o.passes_rest with ⟨passed, -⟩ | ⟨passed, -⟩ <;> rw [passed] <;> rfl
  rw [statements, callTarget?, performRange?, goToTarget?, mask_code, call, perform, goTo]
  rfl

/-- A line of one word is no header, unless the word is PROGRAM-ID. -/
theorem header?_code (notId : spells "PROGRAM-ID".toList o.word = false) : header? o.code = none := by
  have named : headerName? o.code = none ∨ headerName? o.code = some (o.word, '.' :: o.after) := by
    have name : name? o.code = some (o.word, o.rest) := name?_append o.nonempty o.isWord o.endsName_rest
    obtain ⟨c, v, word⟩ := List.exists_cons_of_ne_nil o.nonempty
    rw [word] at name ⊢
    simp only [headerName?, name, Option.bind_eq_bind, Option.bind_some]
    split
    · rcases o.passes_rest with ⟨passed, -⟩ | ⟨passed, -⟩ <;> simp [passed]
    · exact .inl rfl
  have noId : programIdName? o.code = none := Skeleton.programIdName?_eq_none o.isWord o.endsName_rest notId
  rcases named with named | named <;> rw [header?, divisionName?, sectionName?, named, noId] <;> rfl

end OneWord

/-! ## Verbs -/

/-- Is the line a verb and a period? -/
def isSentence (code : Text) : Bool := (paragraphName? code).any isSentenceVerb

section Verb

variable {w : Text} (verb : isSentenceVerb w = true)
include verb

theorem exists_cons_of_isSentenceVerb : ∃ c v, w = c :: v ∧ c.toUpper ∈ ['C', 'D', 'E', 'G'] := by
  rcases Bool.or_eq_true_iff.1 verb with ending | alone
  · obtain ⟨same, long⟩ := Bool.and_eq_true_iff.1 ending
    cases w with
    | nil => cases long
    | cons c v =>
      have first : c.toUpper = 'E' := (List.cons.inj (beq_iff_eq.1 same)).1
      exact ⟨c, v, rfl, by rw [first]; decide⟩
  · obtain ⟨k, member, same⟩ := List.any_eq_true.1 alone
    have initials : ∀ k ∈ sentenceVerbs, (upperAscii k).head?.any (['C', 'D', 'E', 'G'].contains ·) = true := by decide
    have initial := initials k member
    rw [beq_iff_eq.1 same] at initial
    cases w with
    | nil => cases initial
    | cons c v => exact ⟨c, v, rfl, List.contains_iff_mem.1 initial⟩

theorem spells_programId_of_isSentenceVerb : spells "PROGRAM-ID".toList w = false := by
  obtain ⟨c, v, rfl, initial⟩ := exists_cons_of_isSentenceVerb verb
  have differs : letterStandsFor 'P' c = false := by
    have other : c.toUpper ≠ 'P' := by
      intro same
      rw [same] at initial
      exact absurd initial (by decide)
    simpa [letterStandsFor] using other
  have passed : afterKeyword? "PROGRAM-ID".toList (c :: v) = none := by
    show (if letterStandsFor 'P' c then afterKeyword? "ROGRAM-ID".toList v else none) = none
    rw [differs]
    rfl
  rw [spells, passed]
  rfl

/-- A verb is no level number. -/
theorem dataItem?_of_isSentenceVerb (line : LineNumber) (rest : Text) : dataItem? line (w ++ rest) = none := by
  obtain ⟨c, v, rfl, initial⟩ := exists_cons_of_isSentenceVerb verb
  have noDigit : isDecimalDigit c = false := by
    rcases Nat.lt_or_ge c.toNat 128 with ascii | beyond
    · revert initial
      exact of_ascii (P := fun c => c.toUpper ∈ ['C', 'D', 'E', 'G'] → isDecimalDigit c = false) (by decide) ascii
    · rw [toUpper_of_not_ascii beyond] at initial
      have within : ['C', 'D', 'E', 'G'].all (·.toNat < 128) = true := by decide
      exact absurd (of_decide_eq_true (List.all_eq_true.1 within c initial)) (Nat.not_lt.2 beyond)
  have unnamed : levelAndName? (c :: v ++ rest) = none := by
    simp only [levelAndName?, List.cons_append, List.takeWhile_cons, noDigit]
    rfl
  rw [dataItem?, unnamed]
  rfl

end Verb

/-- **A verb with its period does nothing.**  In the procedure division such a line is seen, and elsewhere it is not. -/
theorem advance_sentence {c : LineNumber × Text} (sentence : isSentence c.2 = true) (s : Scan) :
    (s.advance c).assembly =
      if s.assembly.division = some "PROCEDURE".toList then s.assembly.observe c.1 else s.assembly := by
  obtain ⟨line, code⟩ := c
  obtain ⟨w, named, verb⟩ := (Option.any_eq_true _ _).1 sentence
  have header (start : Bool) : paragraphHeader? start code = none := by
    cases start with
    | false => rfl
    | true =>
      rw [paragraphHeader?, if_pos rfl, named]
      exact Option.filter_eq_none_iff.2 (by simp [verb])
  obtain ⟨o, rfl, rfl⟩ := exists_of_paragraphName? named
  have noItem : dataItem? line o.code = none := dataItem?_of_isSentenceVerb verb line o.rest
  have noHeader : header? o.code = none := o.header?_code (spells_programId_of_isSentenceVerb verb)
  rw [Scan.advance, lineEvents_of_unread noHeader noItem (header _) (o.statements_code line)]
  split <;> rfl

/-! ## Section lines -/

/-- The section headers of the procedure division among code lines, `division` being current before them. -/
def sectionHeads (division : Option Text) : List (LineNumber × Text) → List (Text × LineNumber)
  | [] => []
  | c :: codes =>
      match header? c.2 with
      | some (.division name) => sectionHeads (some (Name.ofDivision name)) codes
      | some (.sectionHead name) =>
          (if division = some "PROCEDURE".toList then [(Name.ofSection name, c.1)] else []) ++
            sectionHeads division codes
      | _ => sectionHeads division codes

/-- What is no header opens no section. -/
theorem heads_advance_of_none {s : Scan} {c : LineNumber × Text} (header : header? c.2 = none) :
    (s.advance c).assembly.heads = s.assembly.heads := by
  obtain ⟨events, report, advanced⟩ := s.exists_report c
  rw [advanced]
  refine heads_run_of_none fun e member division => ?_
  cases report with
  | header h found => exact absurd (found.symm.trans header) (Option.some_ne_none h)
  | item | paragraph =>
    obtain rfl := List.mem_singleton.1 member
    rfl
  | statements => rcases mem_statementEvents_iff.1 member with ⟨s, -, rfl⟩ | rfl <;> rfl
  | silent => cases member

theorem advance_header {s : Scan} {c : LineNumber × Text} {h : Header} (header : header? c.2 = some h) :
    (s.advance c).assembly = s.assembly.step (h.event c.1) := by
  rw [Scan.advance, (Report.header h header).eq]
  rfl

theorem heads_foldl_advance (s : Scan) (codes : List (LineNumber × Text)) :
    (codes.foldl Scan.advance s).assembly.heads = s.assembly.heads ++ sectionHeads s.assembly.division codes := by
  induction codes generalizing s with
  | nil => exact (List.append_nil _).symm
  | cons c codes ih =>
    rw [List.foldl_cons, ih, sectionHeads]
    cases header : header? c.2 with
    | none =>
      have unnamed : divisionName? c.2 = none := Option.eq_none_iff_forall_ne_some.2 fun name named => by
        rw [header?_eq_division_iff.2 named] at header
        cases header
      rw [heads_advance_of_none header, advance_division, unnamed]
      rfl
    | some h =>
      rw [advance_header header, heads_step, List.append_assoc, step_division]
      cases h <;> rfl

/-! ## Names of paragraphs -/

/-- No line opens a paragraph that a verb names. -/
theorem opensNamed_of_mem_lineEvents {division : Option Text} {sentenceStart : Bool} {line : LineNumber} {code : Text}
    {e : Event} (member : e ∈ lineEvents division sentenceStart line code) : opensNamed isSentenceVerb e = false := by
  cases e with
  | paragraph name l =>
    obtain ⟨-, -, -, opened⟩ := paragraph_mem_lineEvents_iff.1 member
    have word := isWord_of_paragraphHeader? opened
    rw [paragraphHeader?] at opened
    split at opened
    · have other := (Option.filter_eq_some_iff.1 opened).2
      rw [opensNamed, (Name.isBare_of_isWord word).clean_eq_self]
      exact Bool.not_eq_true' _ ▸ other
    · cases opened
  | _ => rfl

theorem countNamed_advance {s : Scan} (none : s.assembly.countNamed isSentenceVerb = 0) (c : LineNumber × Text) :
    (s.advance c).assembly.countNamed isSentenceVerb = 0 := by
  rw [Scan.advance, countNamed_run (by decide), none, Nat.zero_add, List.countP_eq_zero]
  intro e member
  rw [opensNamed_of_mem_lineEvents member]
  exact Bool.false_ne_true

/-! ## Programs -/

/-- **Verbs and headers.**  No paragraph is named by a verb.  The sections are those that section lines of the
procedure division head, in order and whatever their names are.  A verb with its period does nothing in any state of
the scan but that it is seen in the procedure division. -/
theorem ofSource_verbs (path : Path) (text : Text) :
    (∀ q ∈ (Program.ofSource path text).paragraphs, isSentenceVerb q.name = false) ∧
      (Program.ofSource path text).sections.map (fun s => (s.name, s.line)) = sectionHeads none (codeLines text) ∧
      ∀ (s : Scan) (c : LineNumber × Text), isSentence c.2 = true →
        (s.advance c).assembly =
          if s.assembly.division = some "PROCEDURE".toList then s.assembly.observe c.1 else s.assembly := by
  refine ⟨?_, heads_foldl_advance ⟨Assembly.start path backendName, true⟩ (codeLines text), fun s c sentence =>
    advance_sentence sentence s⟩
  have counted : (scan path text).assembly.countNamed isSentenceVerb = 0 :=
    foldl_advance_keeps (P := fun a => a.countNamed isSentenceVerb = 0) (fun _ c none => countNamed_advance none c)
      (codeLines text) rfl
  rw [← countNamed_finish, List.countP_eq_zero] at counted
  exact fun q member => Bool.eq_false_iff.2 (counted q member)

/-- Two paragraphs of a section, the first of which holds sentences that are a verb. -/
def idle : Text :=
  joinWith ['\n'] (["PROCEDURE DIVISION.", "MAIN SECTION.", "FIRST-PARA.", "    EXIT.", "    CALL 'NEXT'.",
    "    end-if .", "LAST-PARA.", "    Goback."].map String.toList)

/-- The sentences open nothing, and the CALL between them goes to the paragraph above. -/
theorem ofSource_verbs_idle :
    let path : Path := ⟨"/src/idle.cbl".toList⟩
    let p := Program.ofSource path idle
    let s : Scan := ((codeLines idle).take 3).foldl Scan.advance ⟨Assembly.start path backendName, true⟩
    (∀ q ∈ p.paragraphs, isSentenceVerb q.name = false) ∧
      p.sections.map (fun s => (s.name, s.line)) = [("MAIN".toList, 2)] ∧
      (s.advance (4, "EXIT.".toList)).assembly = s.assembly.observe 4 ∧
      p.paragraphs =
        [⟨"FIRST-PARA".toList, some "MAIN".toList, 3, 6, [⟨.call, "NEXT".toList, none, 5, false⟩]⟩,
          ⟨"LAST-PARA".toList, some "MAIN".toList, 7, 8, []⟩] := by
  intro path p s
  obtain ⟨unnamed, headed, sentence⟩ := ofSource_verbs path idle
  refine ⟨unnamed, headed.trans (by decide +kernel), ?_, by decide +kernel⟩
  rw [sentence s (4, "EXIT.".toList) (by decide +kernel)]
  exact if_pos (by decide +kernel)

/-- A section whose only paragraph leaves it. -/
def leaving : Text :=
  joinWith ['\n'] (["PROCEDURE DIVISION.", "MAIN SECTION.", "FIRST-PARA.", "    PERFORM LAST-PARA.",
    "    EXIT SECTION.", "    CALL 'NEXT'."].map String.toList)

/-- The statement EXIT SECTION is taken for the header of a section: the paragraph ends above it, and the CALL below it
goes to another one. -/
theorem ofSource_leaving :
    let p := Program.ofSource ⟨"/src/LEAVE.cbl".toList⟩ leaving
    (∃ s ∈ p.sections, isSentenceVerb s.name = true) ∧
      p.sections.map (fun s => (s.name, s.line)) = [("MAIN".toList, 2), ("EXIT".toList, 5)] ∧
      p.paragraphs =
        [⟨"FIRST-PARA".toList, some "MAIN".toList, 3, 4, [⟨.perform, "LAST-PARA".toList, none, 4, false⟩]⟩,
          ⟨Program.entryParagraph, some "EXIT".toList, 6, 6, [⟨.call, "NEXT".toList, none, 6, false⟩]⟩] := by
  decide +kernel

end Source

end CobolAtlas
