/-
# CobolAtlas.Proofs.Skeleton.Reading -- each construct is read as what it is

The text of a construct is looked at in a fixed order: for the headers of divisions, sections and
programs, then as the current division asks.  `header?_code` says which constructs are headers;
`lineEvents_code` says that a line reports its construct and nothing else, in the division where the
construct stands (`Construct.StandsIn`).  `Construct.isCode` is what the page asks of the text.
-/
import CobolAtlas.Proofs.Skeleton.Transfers
import CobolAtlas.Proofs.Source.Report

namespace CobolAtlas.Skeleton

set_option autoImplicit false

open Text Source

variable {period : Bool}

/-! ## Texts -/

theorem starts_sentence {first : Text} (starts : first.head?.any Char.isAlphanum = true) (pieces : List Text) :
    (sentence period (first :: pieces)).head?.any Char.isAlphanum = true := by
  obtain ⟨c, rest, rfl, alphanum⟩ := exists_cons_of_head?_any starts
  cases pieces with
  | nil => exact alphanum
  | cons piece pieces => exact alphanum

theorem not_mem_of_isWord {w : Text} (word : IsWord w) {c : Char} (stop : isNameCharacter c = false) : c ∉ w := by
  intro member
  rw [word c member] at stop
  cases stop

theorem beforeComment_of_not_mem {t : Text} (absent : '>' ∉ t) : beforeComment t = t :=
  beforeComment_eq_self fun inside => absent (inside.subset (.tail _ (.head _)))

theorem PictureString.not_mem (p : PictureString) {c : Char} (other : c.isAlphanum = false)
    (noMark : c ∉ "()$,.+*/-".toList) : c ∉ p.text := by
  intro member
  rcases p.mem_text member with alphanum | mark
  · rw [other] at alphanum
    cases alphanum
  · exact noMark mark

theorem QuotedLiteral.oneLine_quoted (l : QuotedLiteral) : '\n' ∉ l.quoted := by
  have notQuote : '\n' ≠ l.quote := (l.quote_ne (by decide)).symm
  simp [quoted, notQuote, l.oneLine]

theorem QuotedLiteral.beforeComment_quoted (l : QuotedLiteral) : beforeComment l.quoted = l.quoted := by
  have inner : beforeComment l.text = l.text := beforeComment_eq_self l.noComment
  have quotes : l.quote = '"' ∨ l.quote = '\'' := by simpa [Name.isQuote] using l.quotes
  have ending : beforeComment (l.text ++ [l.quote]) = l.text ++ [l.quote] := by
    have meet : [l.quote].head? ≠ some '>' := by rcases quotes with double | single <;> simp [*]
    have closing : beforeComment [l.quote] = [l.quote] := by rcases quotes with double | single <;> simp [*] <;> rfl
    rw [beforeComment_append inner fun _ => meet, closing]
  have opening : beforeComment [l.quote] = [l.quote] := by rcases quotes with double | single <;> simp [*] <;> rfl
  have notStar : [l.quote].getLast? ≠ some '*' := by rcases quotes with double | single <;> simp [*]
  have joined := beforeComment_append (u := l.text ++ [l.quote]) opening (absurd · notStar)
  rwa [ending] at joined

namespace Construct

/-- Most pieces are words. -/
theorem pieces_cases (c : Construct) {piece : Text} (member : piece ∈ c.pieces) :
    IsWord piece ∨ piece = "PROGRAM-ID.".toList ∨ (∃ p : PictureString, piece = p.text) ∨
      ∃ l : QuotedLiteral, piece = l.quoted := by
  cases c with
  | division d =>
    have keywords : isKeyword d.name = true := by cases d <;> decide
    rcases List.mem_cons.1 member with rfl | rest
    · exact .inl (isWord_of_isKeyword keywords)
    · rw [List.mem_singleton.1 rest]
      exact .inl (isWord_of_isKeyword (by decide))
  | programId name =>
    rcases List.mem_cons.1 member with rfl | rest
    · exact .inr (.inl rfl)
    · rw [List.mem_singleton.1 rest]
      exact .inl name.isWord
  | sectionHeader name =>
    rcases List.mem_cons.1 member with rfl | rest
    · exact .inl name.isWord
    · rw [List.mem_singleton.1 rest]
      exact .inl (isWord_of_isKeyword (by decide))
  | item i =>
    rcases List.mem_cons.1 member with rfl | rest
    · exact .inl i.level.isWord
    · rcases List.mem_cons.1 rest with rfl | rest
      · exact .inl i.name.isWord
      · rcases List.mem_cons.1 rest with rfl | rest
        · exact .inl (isWord_of_isKeyword (by decide))
        · exact .inr (.inr (.inl ⟨i.picture, List.mem_singleton.1 rest⟩))
  | paragraph name =>
    rw [List.mem_singleton.1 member]
    exact .inl name.isWord
  | transfer t =>
    cases t with
    | callLiteral l =>
      rcases List.mem_cons.1 member with rfl | rest
      · exact .inl (isWord_of_isKeyword (by decide))
      · exact .inr (.inr (.inr ⟨l, List.mem_singleton.1 rest⟩))
    | callData name => exact .inl ((Transfer.callData name).isWord_of_shown piece member)
    | perform first notCount last =>
      exact .inl ((Transfer.perform first notCount last).isWord_of_shown piece member)
    | goTo target => exact .inl ((Transfer.goTo target).isWord_of_shown piece member)

theorem oneLine_of_mem (c : Construct) : ∀ piece ∈ c.pieces, '\n' ∉ piece := by
  intro piece member
  rcases c.pieces_cases member with word | rfl | ⟨p, rfl⟩ | ⟨l, rfl⟩
  · exact not_mem_of_isWord word (by decide)
  · decide
  · exact p.not_mem (by decide) (by decide)
  · exact l.oneLine_quoted

theorem beforeComment_of_mem (c : Construct) : ∀ piece ∈ c.pieces, beforeComment piece = piece := by
  intro piece member
  rcases c.pieces_cases member with word | rfl | ⟨p, rfl⟩ | ⟨l, rfl⟩
  · exact beforeComment_of_not_mem (not_mem_of_isWord word (by decide))
  · rfl
  · exact beforeComment_of_not_mem (p.not_mem (by decide) (by decide))
  · exact l.beforeComment_quoted

theorem starts_code (c : Construct) : (c.code period).head?.any Char.isAlphanum = true := by
  cases c with
  | division d => cases d <;> rfl
  | programId name => rfl
  | sectionHeader name => exact starts_sentence name.starts _
  | item i => exact starts_sentence i.level.starts _
  | paragraph name => exact starts_sentence name.starts _
  | transfer t =>
    cases t with
    | callLiteral l => rfl
    | callData name => rfl
    | perform first notCount last => cases last <;> rfl
    | goTo target => rfl

end Construct

/-- A statement without its period ends with a letter, a digit or a quote. -/
theorem Transfer.getLast?_sentence_open (t : Transfer) :
    ∃ c, (sentence false t.pieces).getLast? = some c ∧ isFinal c = true ∧ c ≠ '.' := by
  have ofName : ∀ (pieces : List Text) (u : UserName),
      ∃ c, (sentence false (pieces ++ [u.text])).getLast? = some c ∧ isFinal c = true ∧ c ≠ '.' := by
    intro pieces u
    obtain ⟨c, last, alphanum⟩ := (Option.any_eq_true _ _).1 u.ends
    rw [Skeleton.getLast?_sentence_open pieces u.text_ne_nil]
    exact ⟨c, last, by rw [isFinal, alphanum]; rfl, ne_of_isAlphanum alphanum (by decide)⟩
  cases t with
  | callLiteral l =>
    have quoted : l.quoted ≠ [] := List.cons_ne_nil _ _
    have last : l.quoted.getLast? = some l.quote := by
      rw [QuotedLiteral.quoted, ← List.cons_append, List.getLast?_concat]
    refine ⟨l.quote, (Skeleton.getLast?_sentence_open ["CALL".toList] quoted).trans last, ?_, l.quote_ne (by decide)⟩
    rw [isFinal, l.quotes, Bool.or_true]
  | callData name => exact ofName ["CALL".toList] name
  | perform first notCount last =>
    cases last with
    | none => exact ofName ["PERFORM".toList] first
    | some last => exact ofName ["PERFORM".toList, first.text, "THRU".toList] last
  | goTo target => exact ofName ["GO".toList, "TO".toList] target

namespace Construct

/-- The last character of a line tells whether the sentence ends. -/
theorem getLast?_code (c : Construct) (period : Bool) :
    ∃ d, (c.code period).getLast? = some d ∧ isFinal d = true ∧ (d == '.') = c.ends period := by
  cases ended : c.ends period with
  | true =>
    rw [code, ended]
    exact ⟨'.', Skeleton.getLast?_sentence c.pieces, rfl, rfl⟩
  | false =>
    cases c with
    | transfer t =>
      obtain ⟨d, last, final, notPeriod⟩ := t.getLast?_sentence_open
      rw [code, ended]
      exact ⟨d, last, final, beq_false_of_ne notPeriod⟩
    | _ => cases ended

/-- Every construct can be put on a line. -/
theorem isCode (c : Construct) (period : Bool) : IsCode (c.code period) where
  starts := exists_cons_of_head?_any c.starts_code
  ends := by
    obtain ⟨d, last, final, -⟩ := c.getLast?_code period
    rw [last, Option.any_some, final]
  oneLine := by
    intro member
    rcases mem_of_mem_sentence member with blank | atEnd | ⟨piece, among, inside⟩
    · cases blank
    · cases atEnd
    · exact c.oneLine_of_mem piece among inside
  noComment := beforeComment_sentence c.beforeComment_of_mem

end Construct

/-! ## Headers -/

theorem programIdName?_programId (u : UserName) :
    programIdName? (sentence true ["PROGRAM-ID.".toList, u.text]) = some u.text := by
  have passed : afterKeyword? "PROGRAM-ID".toList (sentence true ["PROGRAM-ID.".toList, u.text]) =
      some ('.' :: ' ' :: (u.text ++ ['.'])) := afterKeyword?_self_append (by decide) _
  have separated : afterIdSeparator? ('.' :: ' ' :: (u.text ++ ['.'])) = some (u.text ++ ['.']) :=
    skipBlanks?_word u.text_ne_nil u.isWord _
  have name : name? (u.text ++ ['.']) = some (u.text, ['.']) := name?_append u.text_ne_nil u.isWord rfl
  simp only [programIdName?, passed, separated, Option.bind_eq_bind, Option.bind_some]
  obtain ⟨c, t, text, alphanum⟩ := u.exists_cons
  have notQuote : Name.isQuote c = false := spares_quotes c alphanum
  rw [text, List.cons_append] at name
  simp only [text, List.cons_append, notQuote, Bool.false_eq_true, if_false, name, Option.map_some]

/-- PROGRAM-ID is no name of a division or section, since a period follows it. -/
theorem header?_programId (u : UserName) :
    header? (sentence true ["PROGRAM-ID.".toList, u.text]) = some (.programId u.text) := by
  have noName : headerName? (sentence true ["PROGRAM-ID.".toList, u.text]) = none :=
    headerName?_eq_none (w := "PROGRAM-ID".toList) (c := '.') (t := ' ' :: (u.text ++ ['.']))
      (isWord_of_isKeyword (by decide)) (by decide) (by decide)
  simp only [header?, divisionName?, sectionName?, noName, programIdName?_programId, Option.bind_eq_bind,
    Option.bind_none, Option.map_some]

/-- A user name after the first word makes no header. -/
theorem UserName.header?_eq_none (u : UserName) {w rest : Text} (word : IsWord w)
    (starts : w.head?.any Char.isAlphanum = true) (notId : spells "PROGRAM-ID".toList w = false)
    (ends : endsName rest = true) : header? (w ++ ' ' :: (u.text ++ rest)) = none :=
  header?_words word starts notId u.isWord u.text_ne_nil u.afterKeyword?_division
    (u.spells_eq_false (by decide +kernel)) ends

/-- A wider gap after the first word changes nothing. -/
theorem header?_gap {w t : Text} (word : IsWord w) (starts : w.head?.any Char.isAlphanum = true)
    (notId : spells "PROGRAM-ID".toList w = false) (g : Gap) (start : ∀ c ∈ t.head?, isBlank c = false) :
    header? (w ++ (g.text ++ t)) = header? (w ++ ' ' :: t) := by
  have name : ∀ g : Gap, headerName? (w ++ (g.text ++ t)) = some (w, t) := by
    intro g
    obtain ⟨d, v, rfl, alphanum⟩ := exists_cons_of_head?_any starts
    have name : name? (d :: v ++ (g.text ++ t)) = some (d :: v, g.text ++ t) :=
      name?_append (List.cons_ne_nil d v) word (g.endsName_append t)
    simp only [headerName?, name, Option.bind_eq_bind, Option.bind_some, isWordCharacter_of_isAlphanum alphanum,
      if_true, g.isGap.skipBlanks?_append start, Option.map_some]
  have same : headerName? (w ++ (g.text ++ t)) = headerName? (w ++ ' ' :: t) := (name g).trans (name .blank).symm
  have noId := programIdName?_eq_none word (g.endsName_append t) notId
  have noId' : programIdName? (w ++ ' ' :: t) = none := programIdName?_eq_none word rfl notId
  simp only [header?, divisionName?, sectionName?, same, noId, noId']

/-- The piece behind the verb of a statement makes no header and no paragraph of the line. -/
theorem Transfer.exists_operand (t : Transfer) :
    ∃ c operand others, t.pieces = t.verb :: (c :: operand) :: others ∧ isBlank c = false ∧ c ≠ '.' ∧
      ∀ rest, endsName rest = true → Source.header? (t.verb ++ ' ' :: (c :: operand ++ rest)) = none := by
  have verb : ∀ k ∈ searchedVerbs, isKeyword k = true ∧ k.head?.any Char.isAlphanum = true ∧
      spells "PROGRAM-ID".toList k = false := by decide
  obtain ⟨keyword, starts, notId⟩ := verb t.verb t.verb_mem
  have word : IsWord t.verb := isWord_of_isKeyword keyword
  have ofName : ∀ (u : UserName) (others : List Text), ∃ c operand others', u.text :: others = (c :: operand) :: others' ∧
      isBlank c = false ∧ c ≠ '.' ∧
      ∀ rest, endsName rest = true → Source.header? (t.verb ++ ' ' :: (c :: operand ++ rest)) = none := by
    intro u others
    obtain ⟨c, operand, text, alphanum⟩ := u.exists_cons
    refine ⟨c, operand, others, by rw [text], isBlank_of_isAlphanum alphanum, ne_of_isAlphanum alphanum (by decide), ?_⟩
    intro rest ends
    rw [← text]
    exact u.header?_eq_none word starts notId ends
  cases t with
  | callLiteral l =>
    refine ⟨l.quote, l.text ++ [l.quote], [], rfl, Literal.spares_isBlank _ l.quotes, l.quote_ne (by decide), fun rest _ => ?_⟩
    have noKeyword : ∀ t, afterKeyword? "DIVISION".toList (l.quote :: t) = none ∧
        afterKeyword? "SECTION".toList (l.quote :: t) = none := by
      rcases Bool.or_eq_true_iff.1 l.quotes with double | single
      · rw [beq_iff_eq.1 double]
        exact fun _ => ⟨rfl, rfl⟩
      · rw [beq_iff_eq.1 single]
        exact fun _ => ⟨rfl, rfl⟩
    refine Skeleton.header?_eq_none word starts notId (Literal.spares_isBlank _ l.quotes) (noKeyword _).1 ?_
    exact congrArg (Option.bind · _) (noKeyword _).2
  | callData name =>
    obtain ⟨c, operand, others, text, facts⟩ := ofName name []
    exact ⟨c, operand, others, congrArg ("CALL".toList :: ·) text, facts⟩
  | perform first notCount last =>
    cases last with
    | none =>
      obtain ⟨c, operand, others, text, facts⟩ := ofName first []
      exact ⟨c, operand, others, congrArg ("PERFORM".toList :: ·) text, facts⟩
    | some last =>
      obtain ⟨c, operand, others, text, facts⟩ := ofName first ["THRU".toList, last.text]
      exact ⟨c, operand, others, congrArg ("PERFORM".toList :: ·) text, facts⟩
  | goTo target =>
    refine ⟨'T', ['O'], [target.text], rfl, by decide, by decide, fun rest ends => ?_⟩
    exact header?_words word starts notId (isWord_of_isKeyword (by decide)) (by decide) (by decide) (by decide) ends

/-- A row of statements is no header. -/
theorem header?_row (period : Bool) (t : Transfer) (ts : List Transfer) (gap : Nat → Gap) :
    Source.header? (row period gap ((t :: ts).flatMap (·.pieces))) = none := by
  have verb : ∀ k ∈ searchedVerbs, isKeyword k = true ∧ k.head?.any Char.isAlphanum = true ∧
      spells "PROGRAM-ID".toList k = false := by decide
  obtain ⟨keyword, starts, notId⟩ := verb t.verb t.verb_mem
  obtain ⟨c, operand, others, pieces, notBlank, -, noHeader⟩ := t.exists_operand
  rw [List.flatMap_cons, pieces, List.cons_append, List.cons_append, row, trail,
    header?_gap (isWord_of_isKeyword keyword) starts notId (gap 0) (by rintro d ⟨⟩; exact notBlank)]
  exact noHeader _ (endsName_trail _ _ _)

theorem Transfer.header?_eq_none (t : Transfer) : Source.header? (sentence period t.pieces) = none := by
  rw [sentence_eq_row]
  have alone := header?_row period t [] fun _ => .blank
  rwa [List.flatMap_singleton] at alone

/-- The header that a construct is. -/
def Construct.header? : Construct → Option Header
  | .division d => some (.division d.name)
  | .programId name => some (.programId name.text)
  | .sectionHeader name => some (.sectionHead name.text)
  | .item _ | .paragraph _ | .transfer _ => none

theorem Construct.header?_code (c : Construct) (period : Bool) : Source.header? (c.code period) = c.header? := by
  cases c with
  | division d => cases d <;> rfl
  | programId name => exact header?_programId name
  | sectionHeader name => exact header?_section name.isWord name.starts
  | item i =>
    exact i.name.header?_eq_none i.level.isWord i.level.starts (i.level.spells_eq_false (by decide) _) rfl
  | paragraph name => exact header?_paragraph name.isWord (name.spells_eq_false (by decide +kernel))
  | transfer t => exact t.header?_eq_none

/-! ## Items -/

/-- A level and a word that does not end with a hyphen. -/
theorem levelAndName?_append (l : Level) {w rest : Text} (word : IsWord w) (lastOfWord : w.getLast?.any Char.isAlphanum = true)
    (ends : endsName rest = true) : levelAndName? (l.text ++ ' ' :: (w ++ rest)) = some (l.text, w) := by
  have digits : ∀ c ∈ l.text, isDecimalDigit c = true := fun c member =>
    isDecimalDigit_of_isDigit (l.isDigit c member)
  have level : (l.text ++ ' ' :: (w ++ rest)).takeWhile isDecimalDigit = l.text := by
    rw [List.takeWhile_append_of_pos digits, List.takeWhile_cons_of_neg (by decide), List.append_nil]
  have after : (l.text ++ ' ' :: (w ++ rest)).dropWhile isDecimalDigit = ' ' :: (w ++ rest) := by
    rw [List.dropWhile_append_of_pos digits, List.dropWhile_cons_of_neg (by decide)]
  have nonempty : l.text.isEmpty = false := by
    obtain ⟨c, t, text, -⟩ := l.exists_cons
    rw [text, List.isEmpty_cons]
  have short : decide (2 < l.text.length) = false := decide_eq_false (Nat.not_lt.2 l.length_text)
  have whole : dropEndWhile (· == '-') w = w := dropEndWhile_eq_self (last_uncut lastOfWord (spares_beq (by decide)))
  have written : w ≠ [] := by
    rintro rfl
    cases lastOfWord
  have named : w.isEmpty = false := by simpa using written
  simp only [levelAndName?, level, after, nonempty, short, skipBlanks?_word written word, name?_append written word ends,
    whole, named, Bool.or_self, Bool.false_eq_true, if_false, Option.bind_eq_bind, Option.bind_some]

theorem pictureRun?_eq_none {c : Char} (notBlank : isBlank c = false) (t : Text) : pictureRun? (c :: t) = none := by
  rw [pictureRun?, skipBlanks?_eq_none notBlank]
  rfl

/-- A word that is neither PIC nor PICTURE starts no clause. -/
theorem pictureClause?_eq_none {w rest : Text} (word : IsWord w) (ends : endsName rest = true)
    (notPic : spells "PIC".toList w = false) (notPicture : spells "PICTURE".toList w = false) :
    pictureClause? (w ++ rest) = none := by
  have whole : afterKeyword? "PICTURE".toList w =
      (afterKeyword? "PIC".toList w).bind (afterKeyword? "TURE".toList) :=
    afterKeyword?_keyword_append "PIC".toList "TURE".toList w
  cases passed : afterKeyword? "PIC".toList w with
  | none => simp only [pictureClause?, afterKeyword?_append (k := "PIC".toList) (by decide) ends, passed,
      Option.map_none, Option.bind_eq_bind, Option.bind_none]
  | some left =>
    have leftWord : IsWord left := word.of_afterKeyword? passed
    rw [passed, Option.bind_some] at whole
    -- what is left after PIC or PICTURE goes on with the word
    have goesOn : ∃ c t, (afterKeyword? "TURE".toList (left ++ rest)).getD (left ++ rest) = c :: t ∧
        isBlank c = false := by
      rw [afterKeyword?_append (by decide) ends]
      cases longer : afterKeyword? "TURE".toList left with
      | none =>
        cases left with
        | nil =>
          rw [spells_iff.2 passed] at notPic
          cases notPic
        | cons c left => exact ⟨c, left ++ rest, rfl, isBlank_of_isNameCharacter leftWord.head⟩
      | some left' =>
        cases left' with
        | nil =>
          rw [spells_iff.2 (whole.trans longer)] at notPicture
          cases notPicture
        | cons c left' =>
          exact ⟨c, left' ++ rest, rfl, isBlank_of_isNameCharacter (leftWord.of_afterKeyword? longer).head⟩
    obtain ⟨c, t, next, notBlank⟩ := goesOn
    simp only [pictureClause?, afterKeyword?_append (k := "PIC".toList) (by decide) ends, passed, Option.map_some,
      Option.bind_eq_bind, Option.bind_some, next, skipBlanks?_eq_none notBlank, Option.bind_none,
      pictureRun?_eq_none notBlank]

/-- A search for a picture passes a word that starts no clause. -/
theorem search_pictureClause?_word {w rest : Text} (word : IsWord w) (notPic : spells "PIC".toList w = false)
    (notPicture : spells "PICTURE".toList w = false) :
    search pictureClause? (w ++ ' ' :: rest) = search pictureClause? rest := by
  rw [search_word_cons pictureClause? word (by decide), pictureClause?_eq_none word rfl notPic notPicture, Option.none_or]

theorem search_pictureClause?_level (l : Level) (rest : Text) :
    search pictureClause? (l.text ++ ' ' :: rest) = search pictureClause? rest :=
  search_pictureClause?_word l.isWord (l.spells_eq_false (by decide) _) (l.spells_eq_false (by decide) _)

/-- The picture stands behind two words that start no clause. -/
theorem picture?_code (i : Item) : picture? ((Construct.item i).code period) = some i.picture.text := by
  apply i.picture.picture?_of_search fun _ => eq_period_of_mem_ending
  show search pictureClause?
    (i.level.text ++ ' ' :: (i.name.text ++ ' ' :: sentence true ["PIC".toList, i.picture.text])) = _
  rw [search_pictureClause?_level, search_pictureClause?_word i.name.isWord (i.name.spells_eq_false (by decide +kernel))
    (i.name.spells_eq_false (by decide +kernel))]
  exact search_eq_some pictureClause? (i.picture.pictureClause?_text true)

theorem dataItem?_code (i : Item) (line : Nat) :
    dataItem? (UInt32.ofNat line) ((Construct.item i).code period) = some (i.record line) := by
  have parts : levelAndName? ((Construct.item i).code period) = some (i.level.text, i.name.text) :=
    levelAndName?_append i.level i.name.isWord i.name.ends rfl
  simp only [dataItem?, parts, i.level.unsigned?_text, picture?_code, Option.bind_eq_bind, Option.bind_some,
    Item.record]

/-! ## Paragraphs -/

theorem paragraphHeader?_paragraph (u : UserName) : paragraphHeader? true (sentence true [u.text]) = some u.text := by
  rw [paragraphHeader?, if_pos rfl, paragraphName?_word u.isWord u.text_ne_nil]
  simp only [Option.filter_some, u.isSentenceVerb_eq_false, Bool.not_false, if_true]

/-- More than one word makes no paragraph. -/
theorem paragraphHeader?_row (period sentenceStart : Bool) (t : Transfer) (ts : List Transfer) (gap : Nat → Gap) :
    paragraphHeader? sentenceStart (row period gap ((t :: ts).flatMap (·.pieces))) = none := by
  have verb : ∀ k ∈ searchedVerbs, isKeyword k = true ∧ k ≠ [] := by decide
  obtain ⟨keyword, nonempty⟩ := verb t.verb t.verb_mem
  obtain ⟨c, operand, others, pieces, notBlank, notPeriod, -⟩ := t.exists_operand
  rw [paragraphHeader?, List.flatMap_cons, pieces, List.cons_append, List.cons_append, row, trail, List.cons_append,
    (gap 0).paragraphName?_eq_none (isWord_of_isKeyword keyword) nonempty notBlank notPeriod]
  exact ite_self none

theorem paragraphHeader?_transfer (sentenceStart : Bool) (t : Transfer) (period : Bool) :
    paragraphHeader? sentenceStart (sentence period t.pieces) = none := by
  rw [sentence_eq_row]
  have alone := paragraphHeader?_row period sentenceStart t [] fun _ => .blank
  rwa [List.flatMap_singleton] at alone

/-! ## Lines -/

/-- What the line of a construct reports. -/
def Construct.events (line : Nat) : Construct → List Event
  | .division d => [.division d.name (UInt32.ofNat line)]
  | .programId name => [.programId name.text]
  | .sectionHeader name => [.sectionHeader name.text (UInt32.ofNat line)]
  | .item i => [.dataItem (i.record line)]
  | .paragraph name => [.paragraph name.text (UInt32.ofNat line)]
  | .transfer t => [.statement (t.record line), .observe (UInt32.ofNat line)]

/-- Items stand in the data division, paragraphs and statements in the procedure division, and a paragraph
where a sentence starts. -/
def Construct.StandsIn (division : Option Text) (sentenceStart : Bool) : Construct → Prop
  | .item _ => division = some Division.data.name
  | .paragraph _ => division = some Division.procedure.name ∧ sentenceStart = true
  | .transfer _ => division = some Division.procedure.name
  | _ => True

/-- **A line reports the construct that is written on it.** -/
theorem Construct.lineEvents_code {division : Option Text} {sentenceStart : Bool} (c : Construct) (period : Bool)
    (stands : c.StandsIn division sentenceStart) (line : Nat) :
    lineEvents division sentenceStart (UInt32.ofNat line) (c.code period) = c.events line := by
  have header := c.header?_code period
  cases c with
  | division d => exact (Report.header _ header).eq
  | programId name => exact (Report.header _ header).eq
  | sectionHeader name => exact (Report.header _ header).eq
  | item i => exact (Report.item (i.record line) header stands (dataItem?_code i line)).eq
  | paragraph name =>
    obtain ⟨inProcedure, rfl⟩ := stands
    exact (Report.paragraph name.text header inProcedure (paragraphHeader?_paragraph name)).eq
  | transfer t =>
    have found : statements (UInt32.ofNat line) ((Construct.transfer t).code period) = [t.record line] :=
      t.statements_sentence period line
    rw [(Report.statements header stands (paragraphHeader?_transfer sentenceStart t period)).eq, found]
    rfl

end CobolAtlas.Skeleton
