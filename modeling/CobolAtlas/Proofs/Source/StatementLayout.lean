/-
# CobolAtlas.Proofs.Source.StatementLayout -- targets in any layout

A statement may stand behind any text that does not have its verb as a word outside literals (`hasWord`), whose literals
are closed and behind which a word can start.  Its verb may be in any letter case, and any blanks may stand between its
words.  An `Opening` is what comes before the operands of such a statement.  A search for the verb goes through the
text in front of it (`Opening.search_eq`), so the operands are those of the statement.

The main statement is `targets_in_any_layout`: the targets of CALL, PERFORM and GO TO are the operands as written.  Only
a PERFORM with a loop word, the verb of its inline body or a count in place of the procedure names none
(`performRange?_loop`).
-/
import CobolAtlas.Proofs.Skeleton.Row
import CobolAtlas.Proofs.Source.LetterCase
import CobolAtlas.Proofs.Source.OpenLiteral

namespace CobolAtlas.Source

set_option autoImplicit false

open Text Literal

/-! ## Whole words -/

/-- The keyword at the start of the text, if no name character follows. -/
def wordAt? (keyword t : Text) : Option Text := (afterKeyword? keyword t).filter endsName

/-- Does the text have the keyword as a word? -/
def hasWord (keyword t : Text) : Bool := (search (wordAt? keyword) t).isSome

theorem wordAt?_eq_some_iff (keyword t after : Text) :
    wordAt? keyword t = some after ↔ ∃ w, t = w ++ after ∧ spells keyword w = true ∧ endsName after = true := by
  rw [wordAt?, Option.filter_eq_some_iff]
  constructor
  · rintro ⟨passed, ends⟩
    obtain ⟨w, rfl, spelled⟩ := exists_spells_of_afterKeyword? passed
    exact ⟨w, rfl, spelled, ends⟩
  · rintro ⟨w, rfl, spelled, ends⟩
    exact ⟨afterKeyword?_of_spells spelled after, ends⟩

/-- A text has a word where neither side of it goes on with a name character. -/
theorem hasWord_iff (keyword t : Text) :
    hasWord keyword t = true ↔
      ∃ before w after, t = before ++ (w ++ after) ∧ endsOpen true before = true ∧ spells keyword w = true ∧
        endsName after = true := by
  constructor
  · intro has
    obtain ⟨after, found⟩ := Option.isSome_iff_exists.1 has
    obtain ⟨before, rest, rfl, isOpen, here, -⟩ := (searchFrom_eq_some_iff _ _ _ _).1 found
    obtain ⟨w, rfl, spelled, ends⟩ := (wordAt?_eq_some_iff keyword rest after).1 here
    exact ⟨before, w, after, rfl, isOpen, spelled, ends⟩
  · rintro ⟨before, w, after, rfl, isOpen, spelled, ends⟩
    rw [hasWord, Option.isSome_iff_ne_none]
    intro nothing
    have fails := (searchFrom_eq_none_iff _ _ _).1 nothing before (w ++ after) rfl isOpen
    rw [(wordAt?_eq_some_iff keyword (w ++ after) after).2 ⟨w, rfl, spelled, ends⟩] at fails
    cases fails

/-- A text that ends with no name character begins with a word and what ends it. -/
theorem exists_word_append {t : Text} (nonempty : t ≠ []) (isOpen : endsOpen true t = true) :
    ∃ w d after, t = w ++ d :: after ∧ IsWord w ∧ isNameCharacter d = false := by
  have split : t.takeWhile isNameCharacter ++ t.dropWhile isNameCharacter = t := List.takeWhile_append_dropWhile
  have word : IsWord (t.takeWhile isNameCharacter) := fun c => List.mem_takeWhile_imp
  cases left : t.dropWhile isNameCharacter with
  | nil =>
    rw [left, List.append_nil] at split
    have last := t.getLast_mem nonempty
    rw [endsOpen, List.getLast?_eq_some_getLast nonempty] at isOpen
    rw [split] at word
    simp [word _ last] at isOpen
  | cons d after =>
    have stops := List.head?_dropWhile_not isNameCharacter t
    rw [left] at split stops
    exact ⟨_, d, after, split.symm, word, stops⟩

/-- A search goes through a text up to where a word can start, if none of its words begins what is looked for. -/
theorem search_append_of_words {α : Type} {recognise : Text → Option α} {before : Text}
    (isOpen : endsOpen true before = true)
    (fails : ∀ start w after, before = start ++ (w ++ after) → endsOpen true start = true → IsWord w →
      endsName after = true → ∀ rest, endsName rest = true → recognise (w ++ rest) = none) (t : Text) :
    search recognise (before ++ t) = search recognise t := by
  rw [search, searchFrom_append_of_fails, isOpen, search]
  intro start c rest split startsWord
  have restOpen : endsOpen true (c :: rest) = true := by
    rw [endsOpen, split, List.getLast?_append, List.getLast?_eq_some_getLast (List.cons_ne_nil c rest)] at isOpen
    rw [endsOpen, List.getLast?_eq_some_getLast (List.cons_ne_nil c rest)]
    exact isOpen
  obtain ⟨w, d, after, tail, word, stop⟩ := exists_word_append (List.cons_ne_nil c rest) restOpen
  rw [← List.cons_append, tail, List.append_assoc, List.cons_append]
  exact fails start w (d :: after) (by rw [split, tail]) startsWord word (by simp [endsName, stop])
    (d :: (after ++ t)) (by simp [endsName, stop])

/-- A keyword that a text does not have is none of its words. -/
theorem spells_eq_false_of_hasWord {keyword before start w after : Text} (free : hasWord keyword before = false)
    (split : before = start ++ (w ++ after)) (startsWord : endsOpen true start = true) (ends : endsName after = true) :
    spells keyword w = false := by
  rw [Bool.eq_false_iff]
  intro spelled
  rw [Bool.eq_false_iff] at free
  exact free ((hasWord_iff keyword before).2 ⟨start, w, after, split, startsWord, spelled, ends⟩)

/-- A search for a verb goes through a text that does not have it, up to where a word can start. -/
theorem search_append_of_hasWord {α : Type} {verb : Text} {recognise : Text → Option α}
    (seeks : Skeleton.Seeks verb recognise) {before : Text} (isOpen : endsOpen true before = true)
    (free : hasWord verb before = false) (t : Text) : search recognise (before ++ t) = search recognise t := by
  refine search_append_of_words isOpen ?_ t
  intro start w after split startsWord word ends rest ends'
  exact seeks w rest word ends' (spells_eq_false_of_hasWord free split startsWord ends)

/-! ## Openings -/

/-- What comes before the operands of a statement: a text that does not have the verb outside literals, the verb, and a
gap. -/
structure Opening (verb : Text) where
  before : Text
  spelling : Text
  gap : Text
  isOpen : endsOpen true before = true := by decide +kernel
  closed : openAfter none before = none := by decide +kernel
  free : hasWord verb (mask before) = false := by decide +kernel
  spelled : spells verb spelling = true := by decide +kernel
  isGap : IsGap gap := by decide +kernel

namespace Opening

variable {verb : Text}

def text (o : Opening verb) : Text := o.before ++ (o.spelling ++ o.gap)

variable {α : Type} {recognise : Text → Option α}

/-- A search for the verb finds it in the opening. -/
theorem search_eq (o : Opening verb) (seeks : Skeleton.Seeks verb recognise) (t : Text) :
    search recognise (mask (o.before ++ t)) = search recognise (mask t) := by
  have isOpen : endsOpen true (mask o.before) = true := by
    simpa only [endsOpen, getLast?_mask o.closed] using o.isOpen
  rw [mask, maskFrom_append, o.closed]
  exact search_append_of_hasWord seeks isOpen o.free (mask t)

theorem callTarget?_eq (o : Opening "CALL".toList) (t : Text) :
    callTarget? (o.text ++ t) = callTarget? (o.spelling ++ (o.gap ++ t)) := by
  rw [text, List.append_assoc, List.append_assoc]
  exact callTarget?_append_of_search (o.search_eq Skeleton.seeks_callOperand? _)

theorem performRange?_eq (o : Opening "PERFORM".toList) (t : Text) :
    performRange? (o.text ++ t) = performRange? (o.spelling ++ (o.gap ++ t)) := by
  rw [text, List.append_assoc, List.append_assoc, performRange?, o.search_eq Skeleton.seeks_performWords?, performRange?]

theorem goToTarget?_eq (o : Opening "GO".toList) (t : Text) :
    goToTarget? (o.text ++ t) = goToTarget? (o.spelling ++ (o.gap ++ t)) := by
  rw [text, List.append_assoc, List.append_assoc, goToTarget?, o.search_eq Skeleton.seeks_goToWord?, goToTarget?]

end Opening

/-! ## Targets -/

/-- A word of name characters, at least one. -/
structure IsName (w : Text) : Prop where
  nonempty : w ≠ []
  word : IsWord w

/-- Does the text go on with a gap and one of the words? -/
def GoesOnWith (words : List Text) (t : Text) : Prop :=
  ∃ gap w rest, t = gap ++ (w ++ rest) ∧ IsGap gap ∧ isOneOf words w = true ∧ endsName rest = true

variable {p r gap gap' between suf : Text}

theorem isName_of_spells {k w : Text} (keyword : isKeyword k = true) (written : k ≠ []) (spelled : spells k w = true) :
    IsName w := by
  refine ⟨?_, isWord_of_spells keyword spelled⟩
  rintro rfl
  cases k with
  | nil => exact written rfl
  | cons a k => cases spelled

/-- Neither word between the procedures of a PERFORM has a letter with other spellings. -/
theorem through_of_spells (spelled : spells "THRU".toList between = true ∨ spells "THROUGH".toList between = true) :
    IsName between ∧ isOneOf ["THRU".toList, "THROUGH".toList] between = true ∧ isOneOf ["TIMES".toList] between = false := by
  have facts : ∀ k ∈ ["THRU".toList, "THROUGH".toList], isKeyword k = true ∧ k ≠ [] ∧ 'S' ∉ k ∧ 'K' ∉ k ∧
      isOneOf ["THRU".toList, "THROUGH".toList] k = true ∧ isOneOf ["TIMES".toList] k = false := by decide
  obtain ⟨k, among, spelled⟩ : ∃ k ∈ ["THRU".toList, "THROUGH".toList], spells k between = true := by
    rcases spelled with thru | through
    · exact ⟨_, .head _, thru⟩
    · exact ⟨_, .tail _ (.head _), through⟩
  obtain ⟨keyword, nonempty, noS, noK, isThrough, noCount⟩ := facts k among
  have upper : upperAscii between = k := upperAscii_of_spells (ascii_of_spells keyword noS noK spelled) spelled
  refine ⟨isName_of_spells keyword nonempty spelled, ?_, ?_⟩
  · rw [← isOneOf_upperAscii, upper]
    exact isThrough
  · rw [← isOneOf_upperAscii, upper]
    exact noCount

theorem performRange?_through (o : Opening "PERFORM".toList) (oneLine : '\n' ∉ o.gap) (first : IsName p)
    (isGap : IsGap gap) (through : spells "THRU".toList between = true ∨ spells "THROUGH".toList between = true)
    (isGap' : IsGap gap') (last : IsName r) (ends : endsName suf = true) :
    performRange? (o.text ++ (p ++ (gap ++ (between ++ (gap' ++ (r ++ suf)))))) =
      if isProcedureName p then some ⟨p, some r⟩ else none := by
  obtain ⟨isName, isThrough, noCount⟩ := through_of_spells through
  rw [o.performRange?_eq, performRange?_words o.spelled o.isGap first.nonempty first.word (isGap.endsName_append _),
    nextName?_append isGap isName.nonempty isName.word (isGap'.endsName_append _)]
  simp only [noCount, isThrough, nextName?_append isGap' last.nonempty last.word ends, oneLine, false_or]
  cases isProcedureName p <;> simp

theorem performRange?_alone (o : Opening "PERFORM".toList) (oneLine : '\n' ∉ o.gap) (name : IsName p)
    (ends : endsName suf = true)
    (free : ¬ GoesOnWith ["TIMES".toList, "THRU".toList, "THROUGH".toList] suf) :
    performRange? (o.text ++ (p ++ suf)) = if isProcedureName p then some ⟨p, none⟩ else none := by
  rw [o.performRange?_eq, performRange?_words o.spelled o.isGap name.nonempty name.word ends]
  simp only [oneLine, false_or]
  cases isProcedureName p with
  | false => simp
  | true =>
    cases next : nextName? suf with
    | none => simp
    | some found =>
      obtain ⟨second, rest⟩ := found
      obtain ⟨gap, rfl, isGap, ends⟩ := of_nextName? next
      have other : isOneOf ["TIMES".toList, "THRU".toList, "THROUGH".toList] second = false := by
        rw [Bool.eq_false_iff]
        exact fun among => free ⟨gap, second, rest, rfl, isGap, among, ends⟩
      have apart : (sameIgnoringCase "TIMES".toList second || isOneOf ["THRU".toList, "THROUGH".toList] second) = false :=
        other
      obtain ⟨noTimes, noThrough⟩ := Bool.or_eq_false_iff.1 apart
      have noCount : isOneOf ["TIMES".toList] second = false := by
        rw [isOneOf, List.any_cons, noTimes]
        rfl
      simp only [noCount, noThrough, Bool.true_eq_false, Bool.false_eq_true, if_false, if_true]

theorem goToTarget?_name (o : Opening "GO".toList) (name : IsName p) (ends : endsName suf = true)
    (free : isOneOf ["DEPENDING".toList, "TO".toList] p = false) : goToTarget? (o.text ++ (p ++ suf)) = some p := by
  have notTo : spells "TO".toList p = false := by
    rw [Bool.eq_false_iff]
    intro spelled
    have among := sameIgnoringCase_of_spells (ascii_of_spells (by decide) (by decide) (by decide) spelled) spelled
    simp only [isOneOf, List.any_cons, Bool.or_eq_false_iff] at free
    rw [among] at free
    exact Bool.true_eq_false.mp free.2.1
  rw [o.goToTarget?_eq, goToTarget?_of_word (goToWord?_word o.spelled o.isGap name.nonempty name.word notTo ends), free]
  rfl

theorem goToTarget?_to (o : Opening "GO".toList) (isTo : spells "TO".toList between = true) (isGap : IsGap gap)
    (name : IsName p) (ends : endsName suf = true) (free : isOneOf ["DEPENDING".toList, "TO".toList] p = false) :
    goToTarget? (o.text ++ (between ++ (gap ++ (p ++ suf)))) = some p := by
  rw [o.goToTarget?_eq, goToTarget?_of_word (goToWord?_to o.spelled o.isGap isTo isGap name.nonempty name.word ends), free]
  rfl

/-- **The target of a statement is its operand, in any layout.**  Behind any text that does not have its verb outside
literals, a CALL of a literal names its content without the blanks around it, and a CALL of a data name the data name.
A PERFORM on one line with its procedure names the procedure, with the last one if THRU or THROUGH follows, unless the
word in its place is a loop word, a verb or a count, and then it names none.  A GO or GO TO names the word behind it,
other than DEPENDING and TO.  Keywords are in any letter case, gaps are any blanks, and what follows a name does not
go on with a name character. -/
theorem targets_in_any_layout :
    (∀ (o : Opening "CALL".toList) (q : Char) (name suf : Text), Name.isQuote q = true → IsContent q name →
      trim name ≠ [] → callTarget? (o.text ++ q :: (name ++ q :: suf)) = some ⟨trim name, false⟩) ∧
    (∀ (o : Opening "CALL".toList) (name suf : Text), IsName name → (∀ c ∈ name.head?, isLetterOrDigit c = true) →
      endsName suf = true → callTarget? (o.text ++ (name ++ suf)) = some ⟨name, true⟩) ∧
    (∀ (o : Opening "PERFORM".toList) (first gap through gap' last suf : Text), '\n' ∉ o.gap → IsName first → IsGap gap →
      (spells "THRU".toList through = true ∨ spells "THROUGH".toList through = true) → IsGap gap' → IsName last →
      endsName suf = true →
      performRange? (o.text ++ (first ++ (gap ++ (through ++ (gap' ++ (last ++ suf)))))) =
        if isProcedureName first then some ⟨first, some last⟩ else none) ∧
    (∀ (o : Opening "PERFORM".toList) (first suf : Text), '\n' ∉ o.gap → IsName first → endsName suf = true →
      ¬ GoesOnWith ["TIMES".toList, "THRU".toList, "THROUGH".toList] suf →
      performRange? (o.text ++ (first ++ suf)) = if isProcedureName first then some ⟨first, none⟩ else none) ∧
    (∀ (o : Opening "GO".toList) (name suf : Text), IsName name → endsName suf = true →
      isOneOf ["DEPENDING".toList, "TO".toList] name = false →
      goToTarget? (o.text ++ (name ++ suf)) = some name ∧
        ∀ between gap : Text, spells "TO".toList between = true → IsGap gap →
          goToTarget? (o.text ++ (between ++ (gap ++ (name ++ suf)))) = some name) := by
  refine ⟨?call, ?dataName, ?through, ?alone, ?goTo⟩
  case call =>
    intro o q name suf quote content notBlank
    rw [o.callTarget?_eq]
    exact callTarget?_content o.spelled o.isGap quote content notBlank suf
  case dataName =>
    intro o name suf isName start ends
    rw [o.callTarget?_eq]
    exact callTarget?_dataName o.spelled o.isGap isName.nonempty isName.word start ends
  case through =>
    intro o first gap through gap' last suf oneLine isFirst isGap isThrough isGap' isLast ends
    exact performRange?_through o oneLine isFirst isGap isThrough isGap' isLast ends
  case alone =>
    intro o first suf oneLine isName ends free
    exact performRange?_alone o oneLine isName ends free
  case goTo =>
    intro o name suf isName ends free
    refine ⟨goToTarget?_name o isName ends free, ?_⟩
    intro between gap isTo isGap
    exact goToTarget?_to o isTo isGap isName ends free

/-- Statements behind a literal that holds their verb. -/
theorem targets_in_any_layout_shown :
    callTarget? ("DISPLAY 'CALL'.\n".toList ++ ("Call".toList ++ "\n\t".toList) ++ '"' :: (" PAY ROLL".toList ++ ['"'])) =
        some ⟨"PAY ROLL".toList, false⟩ ∧
      callTarget? ("DISPLAY 'CALL'.\n".toList ++ ("Call".toList ++ "\n\t".toList) ++ ("PAY-ROLL".toList ++ ".".toList)) =
        some ⟨"PAY-ROLL".toList, true⟩ ∧
      performRange? ("IF A-PERFORM ".toList ++ ("perform".toList ++ "  ".toList) ++
          ("STEP-1".toList ++ (" ".toList ++ ("Through".toList ++ ("\n".toList ++ ("STEP-9".toList ++ ".".toList)))))) =
        some ⟨"STEP-1".toList, some "STEP-9".toList⟩ ∧
      performRange? ("IF A-PERFORM ".toList ++ ("perform".toList ++ "  ".toList) ++ ("STEP-1".toList ++ ".".toList)) =
        some ⟨"STEP-1".toList, none⟩ ∧
      goToTarget? ("IF \"GO\" = A ".toList ++ ("Go".toList ++ " ".toList) ++ ("STEP-1".toList ++ [])) =
        some "STEP-1".toList := by
  obtain ⟨call, dataName, through, alone, goTo⟩ := targets_in_any_layout
  let calls : Opening "CALL".toList := { before := "DISPLAY 'CALL'.\n".toList, spelling := "Call".toList, gap := "\n\t".toList }
  let performs : Opening "PERFORM".toList :=
    { before := "IF A-PERFORM ".toList, spelling := "perform".toList, gap := "  ".toList }
  let goes : Opening "GO".toList := { before := "IF \"GO\" = A ".toList, spelling := "Go".toList, gap := " ".toList }
  have step : IsName "STEP-1".toList := ⟨by decide, by decide +kernel⟩
  have start : ∀ c ∈ "PAY-ROLL".toList.head?, isLetterOrDigit c = true := by
    rintro c ⟨⟩
    decide
  have ends : ¬ GoesOnWith ["TIMES".toList, "THRU".toList, "THROUGH".toList] ".".toList := by
    rintro ⟨gap, w, rest, split, isGap, -⟩
    obtain ⟨c, gap, rfl⟩ := List.exists_cons_of_ne_nil isGap.nonempty
    obtain rfl : '.' = c := (List.cons.inj split).1
    exact absurd (isGap.blank _ List.mem_cons_self) (by decide)
  refine ⟨?_, ?_, ?_, ?_, ?_⟩
  · exact call calls '"' " PAY ROLL".toList [] rfl ⟨by decide, by decide⟩ (by decide)
  · exact dataName calls "PAY-ROLL".toList ".".toList ⟨by decide, by decide +kernel⟩ start (by decide)
  · exact through performs "STEP-1".toList " ".toList "Through".toList "\n".toList "STEP-9".toList ".".toList (by decide)
      step (by decide) (.inr (by decide)) (by decide) ⟨by decide, by decide +kernel⟩ (by decide)
  · exact alone performs "STEP-1".toList ".".toList (by decide) step (by decide) ends
  · exact (goTo goes "STEP-1".toList [] step rfl (by decide +kernel)).1

/-- With a loop word in place of the procedure a PERFORM names none, whatever follows. -/
theorem performRange?_loop :
    performRange? "PERFORM UNTIL THRU X".toList = none ∧
      ¬ ∀ (o : Opening "PERFORM".toList) (first gap through gap' last suf : Text), '\n' ∉ o.gap → IsName first →
        IsGap gap → (spells "THRU".toList through = true ∨ spells "THROUGH".toList through = true) → IsGap gap' →
        IsName last → endsName suf = true →
        performRange? (o.text ++ (first ++ (gap ++ (through ++ (gap' ++ (last ++ suf)))))) = some ⟨first, some last⟩ := by
  have nothing : performRange? "PERFORM UNTIL THRU X".toList = none := by decide +kernel
  refine ⟨nothing, fun all => ?_⟩
  have named := all { before := [], spelling := "PERFORM".toList, gap := " ".toList } "UNTIL".toList " ".toList
    "THRU".toList " ".toList "X".toList [] (by decide) ⟨by decide, by decide +kernel⟩ (by decide) (.inl (by decide))
    (by decide) ⟨by decide, by decide +kernel⟩ rfl
  exact Option.some_ne_none _ (named.symm.trans nothing)

end CobolAtlas.Source
