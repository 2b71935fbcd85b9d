/-
# CobolAtlas.Proofs.Skeleton.Parts -- how the parts of a construct are read

The side conditions of a part are there so that it is read as what it is.  A user name is a word that is
cut nowhere (`UserName.clean_text`) and that no keyword of a recogniser matches
(`UserName.spells_eq_false`, `UserName.afterKeyword?_division`).  A level is read as its number
(`Level.unsigned?_text`), a clause as its picture (`PictureString.pictureClause?_run`), and a masked literal
shows nothing but blanks between its quotes (`QuotedLiteral.mask_append`).
-/
import CobolAtlas.Proofs.Skeleton.Layout
import CobolAtlas.Proofs.Skeleton.Sentence
import CobolAtlas.Proofs.Source.Cleaning
import CobolAtlas.Proofs.Source.Literal
import CobolAtlas.Proofs.Text.LetterCase
import CobolAtlas.Source.Picture

namespace CobolAtlas.Skeleton

set_option autoImplicit false

open Text

/-! ## User names -/

theorem isNameCharacter_of_isPlain {c : Char} (plain : isPlain c = true) : isNameCharacter c = true := by
  rcases Bool.or_eq_true_iff.1 plain with alphanum | hyphen
  · exact isNameCharacter_of_isAlphanum alphanum
  · simp [isNameCharacter, hyphen]

theorem toNat_lt_of_isPlain {c : Char} (plain : isPlain c = true) : c.toNat < 128 := by
  rcases Bool.or_eq_true_iff.1 plain with alphanum | hyphen
  · exact toNat_lt_of_isAlphanum alphanum
  · rw [beq_iff_eq.1 hyphen]; decide

section Words

variable {w : Text} {p : Char → Bool}

theorem isWord_of_plain (plain : w.all isPlain = true) : IsWord w := fun c member =>
  isNameCharacter_of_isPlain (List.all_eq_true.1 plain c member)

theorem ascii_of_plain (plain : w.all isPlain = true) : ∀ c ∈ w, c.toNat < 128 := fun c member =>
  toNat_lt_of_isPlain (List.all_eq_true.1 plain c member)

/-- What spares letters and digits cuts nothing at the end of a word that ends with one. -/
theorem last_uncut (ends : w.getLast?.any Char.isAlphanum = true) (spares : ∀ c, c.isAlphanum = true → p c = false) :
    ∀ c ∈ w.getLast?, p c = false := by
  intro c last
  rw [Option.mem_def.1 last] at ends
  exact spares c ends

theorem spares_beq {d : Char} (other : d.isAlphanum = false) : ∀ c, c.isAlphanum = true → (c == d) = false :=
  fun _ alphanum => beq_false_of_ne (ne_of_isAlphanum alphanum other)

theorem spares_quotes : ∀ c, c.isAlphanum = true → Name.isQuote c = false := by
  intro c alphanum
  rw [Name.isQuote, spares_beq (by decide) c alphanum, spares_beq (by decide) c alphanum, Bool.or_false]

theorem spells_eq_false_of_not_oneOf {ws : List Text} (ascii : ∀ c ∈ w, c.toNat < 128)
    (free : Source.isOneOf ws w = false) {k : Text} (among : k ∈ ws) : spells k w = false := by
  rw [Bool.eq_false_iff]
  intro spelled
  simp only [Source.isOneOf, List.any_eq_false] at free
  exact free k among (sameIgnoringCase_of_spells ascii spelled)

theorem afterKeyword?_eq_none_of_not_prefix {k : Text} (ascii : ∀ c ∈ w, c.toNat < 128)
    (other : k.isPrefixOf (upperAscii w) = false) : afterKeyword? k w = none := by
  cases passed : afterKeyword? k w with
  | none => rfl
  | some left =>
    rw [upperAscii_of_afterKeyword? ascii passed, List.isPrefixOf_iff_prefix.2 (List.prefix_append _ _)] at other
    cases other

end Words

namespace UserName

variable (u : UserName)

theorem isWord : IsWord u.text := isWord_of_plain u.plain

theorem ascii : ∀ c ∈ u.text, c.toNat < 128 := ascii_of_plain u.plain

theorem exists_cons : ∃ c t, u.text = c :: t ∧ c.isAlphanum = true := exists_cons_of_head?_any u.starts

theorem text_ne_nil : u.text ≠ [] := by
  obtain ⟨c, t, text, -⟩ := u.exists_cons
  rw [text]
  exact List.cons_ne_nil c t

theorem clean_text : Name.clean u.text = u.text := (Name.isBare_of_isWord u.isWord).clean_eq_self

theorem upper_text : upper u.text = upperAscii u.text := by
  have all : ∀ t : Text, (∀ c ∈ t, c.toNat < 128) → upper t = upperAscii t := by
    intro t ascii
    induction t with
    | nil => rfl
    | cons c t ih =>
      have rest := ih fun d member => ascii d (List.mem_cons_of_mem c member)
      have here : upperCharacter c = [c.toUpper] := if_pos (ascii c List.mem_cons_self)
      rw [upper, List.flatMap_cons, here, ← upper, rest]
      rfl
  exact all u.text u.ascii

theorem ofSection_text : Name.ofSection u.text = upperAscii u.text := by
  rw [Name.ofSection, clean_text, upper_text]

/-! ### No reserved word -/

theorem isOneOf_eq_false {ws : List Text} (reserved : ∀ w ∈ ws, w ∈ reservedWords) :
    Source.isOneOf ws u.text = false := by
  have free := u.unreserved
  simp only [Source.isOneOf, List.any_eq_false] at free ⊢
  exact fun w member => free w (reserved w member)

theorem spells_eq_false {k : Text} (reserved : k ∈ reservedWords) : spells k u.text = false :=
  spells_eq_false_of_not_oneOf u.ascii u.unreserved reserved

theorem afterKeyword?_division : afterKeyword? "DIVISION".toList u.text = none :=
  afterKeyword?_eq_none_of_not_prefix u.ascii u.noDivision

theorem isSentenceVerb_eq_false : Source.isSentenceVerb u.text = false := by
  have verbs : Source.sentenceVerbs.any (sameIgnoringCase · u.text) = false :=
    u.isOneOf_eq_false fun w member => List.mem_append_right _ member
  have noEnd : sameIgnoringCase (u.text.take 4) "END-".toList = false := by
    rw [Bool.eq_false_iff]
    intro same
    have start : (upperAscii u.text).take 4 = "END-".toList := by
      rw [upperAscii, ← List.map_take]
      exact beq_iff_eq.1 same
    have noEnd := u.noEnd
    rw [← start, List.isPrefixOf_iff_prefix.2 (List.take_prefix _ _)] at noEnd
    cases noEnd
  rw [Source.isSentenceVerb, noEnd, verbs, Bool.false_and, Bool.or_false]

end UserName

/-! ## Levels -/

/-- Levels are few enough to look at each. -/
theorem digits_spec : ∀ n < 100, ∀ wide,
    (digits n wide).all Char.isDigit = true ∧ digits n wide ≠ [] ∧ (digits n wide).length ≤ 2 ∧
      unsigned? (digits n wide) = some (UInt32.ofNat n) := by
  decide +kernel

namespace Level

variable (l : Level)

theorem spec : l.text.all Char.isDigit = true ∧ l.text ≠ [] ∧ l.text.length ≤ 2 ∧
    unsigned? l.text = some (UInt32.ofNat l.number) :=
  digits_spec l.number (Nat.lt_succ_of_le l.small) l.wide

theorem isDigit : ∀ c ∈ l.text, c.isDigit = true := List.all_eq_true.1 l.spec.1

theorem length_text : l.text.length ≤ 2 := l.spec.2.2.1

theorem unsigned?_text : unsigned? l.text = some (UInt32.ofNat l.number) := l.spec.2.2.2

theorem exists_cons : ∃ c t, l.text = c :: t ∧ c.isDigit = true := by
  obtain ⟨c, t, text⟩ := List.exists_cons_of_ne_nil l.spec.2.1
  exact ⟨c, t, text, l.isDigit c (by rw [text]; exact List.mem_cons_self)⟩

theorem starts : l.text.head?.any Char.isAlphanum = true := by
  obtain ⟨c, t, text, digit⟩ := l.exists_cons
  rw [text]
  exact isAlphanum_of_isDigit digit

theorem isWord : IsWord l.text := fun c member =>
  isNameCharacter_of_isAlphanum (isAlphanum_of_isDigit (l.isDigit c member))

/-- A number is no keyword. -/
theorem spells_eq_false {a : Char} (letter : a.isUpper = true) (k : Text) :
    spells (a :: k) l.text = false := by
  obtain ⟨c, t, text, digit⟩ := l.exists_cons
  rw [text, spells, afterKeyword?, letterStandsFor_digit letter digit]
  rfl

end Level

/-! ## Pictures -/

theorem isPictureCharacter_of_isBlank {c : Char} (blank : isBlank c = true) : Source.isPictureCharacter c = false := by
  have marks : "()$,.+*/-".toList.any isBlank = false := by decide
  have kelvin : isBlank (Char.ofNat 0x212A) = false := by decide
  rw [Bool.eq_false_iff]
  intro inside
  simp only [Source.isPictureCharacter, isLetterOrDigit, Bool.or_eq_true, beq_iff_eq] at inside
  rcases inside with ((alphanum | long) | sign) | mark
  · rw [isBlank_of_isAlphanum alphanum] at blank
    cases blank
  · rw [long] at blank
    cases blank
  · rw [← Char.ofNat_toNat c, sign, kelvin] at blank
    cases blank
  · exact List.any_eq_false.1 marks c (List.contains_iff_mem.1 mark) blank

/-- PIC and PICTURE start a clause alike; the clause is that behind IS if there is one. -/
theorem pictureClause?_keyword {k t : Text} (spelled : spells "PIC".toList k = true ∨ spells "PICTURE".toList k = true)
    (ends : endsName t = true) :
    Source.pictureClause? (k ++ t) =
      (((skipBlanks? t).bind (afterKeyword? "IS".toList)).bind Source.pictureRun?).or (Source.pictureRun? t) := by
  have short : afterKeyword? "TURE".toList t = none := by
    rw [← List.nil_append t, afterKeyword?_append (by decide) ends]
    rfl
  obtain ⟨rest, passed, left⟩ : ∃ rest, afterKeyword? "PIC".toList (k ++ t) = some rest ∧
      (afterKeyword? "TURE".toList rest).getD rest = t := by
    rcases spelled with pic | picture
    · exact ⟨t, afterKeyword?_of_spells pic t, by rw [short, Option.getD_none]⟩
    · have whole := afterKeyword?_of_spells picture t
      rw [show "PICTURE".toList = "PIC".toList ++ "TURE".toList from rfl, afterKeyword?_keyword_append] at whole
      obtain ⟨rest, passed, longer⟩ := Option.bind_eq_some_iff.1 whole
      exact ⟨rest, passed, by rw [longer, Option.getD_some]⟩
  simp only [Source.pictureClause?, passed, Option.bind_eq_bind, Option.bind_some, left]
  cases ((skipBlanks? t).bind (afterKeyword? "IS".toList)).bind Source.pictureRun? <;> rfl

namespace PictureString

variable (p : PictureString)

theorem mem_text {c : Char} (member : c ∈ p.text) : c.isAlphanum = true ∨ c ∈ "()$,.+*/-".toList := by
  rcases Bool.or_eq_true_iff.1 (List.all_eq_true.1 p.characters c member) with alphanum | mark
  · exact .inl alphanum
  · exact .inr (List.contains_iff_mem.1 mark)

theorem ascii : ∀ c ∈ p.text, c.toNat < 128 := by
  have marks : ("()$,.+*/-".toList.all fun c => decide (c.toNat < 128)) = true := by decide
  intro c member
  rcases p.mem_text member with alphanum | mark
  · exact toNat_lt_of_isAlphanum alphanum
  · exact of_decide_eq_true (List.all_eq_true.1 marks c mark)

/-! Periods behind a picture are read with it and cut off after that. -/

section Run

variable {g k dots rest : Text} (periods : ∀ c ∈ dots, c = '.')

include periods

theorem mem_run {c : Char} (member : c ∈ p.text ++ dots) : c.isAlphanum = true ∨ c ∈ "()$,.+*/-".toList := by
  rcases List.mem_append.1 member with inside | atEnd
  · exact p.mem_text inside
  · rw [periods c atEnd]
    exact .inr (by decide)

theorem isPictureCharacter : ∀ c ∈ p.text ++ dots, Source.isPictureCharacter c = true := by
  intro c member
  rcases p.mem_run periods member with alphanum | mark
  · simp [Source.isPictureCharacter, isLetterOrDigit, alphanum]
  · rw [Source.isPictureCharacter, List.contains_iff_mem.2 mark, Bool.or_true]

theorem isBlank_eq_false : ∀ c ∈ p.text ++ dots, isBlank c = false := by
  intro c member
  rw [Bool.eq_false_iff]
  intro blank
  have inside := p.isPictureCharacter periods c member
  rw [isPictureCharacter_of_isBlank blank] at inside
  cases inside

theorem skipBlanks?_run (gap : IsGap g) (rest : Text) :
    skipBlanks? (g ++ (p.text ++ dots ++ rest)) = some (p.text ++ dots ++ rest) := by
  apply gap.skipBlanks?_append
  have notBlank := p.isBlank_eq_false periods
  obtain ⟨c, t, text⟩ := List.exists_cons_of_ne_nil p.nonempty
  rw [text] at notBlank ⊢
  rintro d ⟨⟩
  exact notBlank c List.mem_cons_self

variable (stops : ∀ c ∈ rest.head?, isBlank c = true)

include stops

/-- A picture is read as far as the next blank. -/
theorem pictureRun?_run (gap : IsGap g) : Source.pictureRun? (g ++ (p.text ++ dots ++ rest)) = some (p.text ++ dots) := by
  have noMore : rest.takeWhile Source.isPictureCharacter = [] := by
    cases rest with
    | nil => rfl
    | cons c rest => rw [List.takeWhile_cons, isPictureCharacter_of_isBlank (stops c rfl), if_neg Bool.false_ne_true]
  have whole : (p.text ++ dots ++ rest).takeWhile Source.isPictureCharacter = p.text ++ dots := by
    rw [List.takeWhile_append_of_pos (p.isPictureCharacter periods), noMore, List.append_nil]
  rw [Source.pictureRun?, p.skipBlanks?_run periods gap, Option.getD_some, whole]
  cases text : p.text with
  | nil => exact absurd text p.nonempty
  | cons c t => rfl

/-- IS at the start of a picture belongs to it, unless it is all of the picture and something follows. -/
theorem pictureClause?_run (spelled : spells "PIC".toList k = true ∨ spells "PICTURE".toList k = true) (gap : IsGap g)
    (noIs : spells "IS".toList p.text = false ∨ rest = []) :
    Source.pictureClause? (k ++ (g ++ (p.text ++ dots ++ rest))) = some (p.text ++ dots) := by
  have noRun : (afterKeyword? "IS".toList (p.text ++ dots ++ rest)).bind Source.pictureRun? = none := by
    cases passed : afterKeyword? "IS".toList (p.text ++ dots ++ rest) with
    | none => rfl
    | some left =>
      -- what is left of the run is no blank, and if nothing is left of it then IS is the picture
      suffices stuck : skipBlanks? left = none by
        rw [Option.bind_some, Source.pictureRun?, stuck]
        rfl
      obtain ⟨is, split, isSpelled⟩ := exists_spells_of_afterKeyword? passed
      have word : IsWord is := isWord_of_spells (by decide) isSpelled
      have whole (same : is = p.text ++ dots) (after : left = rest) : skipBlanks? left = none := by
        have noDots : dots = [] := by
          refine List.eq_nil_iff_forall_not_mem.2 fun c member => ?_
          have name := word c (same ▸ List.mem_append_right _ member)
          rw [periods c member] at name
          cases name
        rw [same, noDots, List.append_nil] at isSpelled
        rcases noIs with other | nothing
        · rw [isSpelled] at other
          cases other
        · rw [after, nothing]
          rfl
      rcases List.append_eq_append_iff.1 split with ⟨more, same, after⟩ | ⟨more, same, after⟩
      · cases more with
        | nil => exact whole (by simpa using same) after.symm
        | cons c more =>
          have name : isNameCharacter c = true := word c (by simp [same])
          rw [isNameCharacter_of_isBlank (stops c (by rw [after]; rfl))] at name
          cases name
      · cases more with
        | nil => exact whole (by simpa using same.symm) after
        | cons c more =>
          rw [after]
          exact skipBlanks?_eq_none (p.isBlank_eq_false periods c (by simp [same])) _
  rw [pictureClause?_keyword spelled (gap.endsName_append _), p.skipBlanks?_run periods gap, Option.bind_some, noRun,
    Option.none_or, p.pictureRun?_run periods stops gap]

/-- The picture behind IS. -/
theorem pictureClause?_is {is g' : Text}
    (spelled : spells "PIC".toList k = true ∨ spells "PICTURE".toList k = true) (gap : IsGap g)
    (isSpelled : spells "IS".toList is = true) (gap' : IsGap g') :
    Source.pictureClause? (k ++ (g ++ (is ++ (g' ++ (p.text ++ dots ++ rest))))) = some (p.text ++ dots) := by
  have word : IsWord is := isWord_of_spells (by decide) isSpelled
  have start : ∀ c ∈ (is ++ (g' ++ (p.text ++ dots ++ rest))).head?, isBlank c = false := by
    cases is with
    | nil => cases isSpelled
    | cons c is =>
      rintro d ⟨⟩
      exact isBlank_of_isNameCharacter word.head
  rw [pictureClause?_keyword spelled (gap.endsName_append _), gap.skipBlanks?_append start, Option.bind_some,
    afterKeyword?_of_spells isSpelled, Option.bind_some, p.pictureRun?_run periods stops gap', Option.some_or]

omit stops

/-- Periods behind the picture are no part of it. -/
theorem picture?_of_search {t : Text} (found : search Source.pictureClause? t = some (p.text ++ dots)) :
    Source.picture? t = some p.text := by
  have last : ∀ c ∈ p.text.getLast?, (c == '.') = false := by
    intro c last
    rw [beq_eq_false_iff_ne]
    rintro rfl
    exact p.ends last
  have cut : dropEndWhile (· == '.') (p.text ++ dots) = p.text := by
    rw [dropEndWhile_append fun c member => beq_iff_eq.2 (periods c member), dropEndWhile_eq_self last]
  have nonempty : p.text.isEmpty = false := by
    obtain ⟨c, t, text⟩ := List.exists_cons_of_ne_nil p.nonempty
    rw [text, List.isEmpty_cons]
  simp only [Source.picture?, found, cut, nonempty, Bool.false_eq_true, if_false]

end Run

theorem pictureClause?_text (period : Bool) :
    Source.pictureClause? (sentence period ["PIC".toList, p.text]) = some (p.text ++ ending period) := by
  have written : sentence period ["PIC".toList, p.text] = "PIC".toList ++ ([' '] ++ (p.text ++ ending period ++ [])) := by
    rw [List.append_nil]
    rfl
  rw [written]
  exact p.pictureClause?_run (fun _ => eq_period_of_mem_ending) nofun (.inl (by decide)) (by decide) (.inr rfl)

end PictureString

/-! ## Literals -/

theorem QuotedLiteral.head_notBlank (l : QuotedLiteral) : ∀ c ∈ l.text.head?, isBlank c = false := by
  intro c head
  have starts := l.starts
  rw [Option.mem_def.1 head] at starts
  simpa using starts

/-- Only the two quotes are quotes. -/
theorem QuotedLiteral.quote_ne (l : QuotedLiteral) {c : Char} (other : Name.isQuote c = false) : l.quote ≠ c := by
  intro same
  have quote := l.quotes
  rw [same, other] at quote
  cases quote

theorem QuotedLiteral.last_notBlank (l : QuotedLiteral) : ∀ c ∈ l.text.getLast?, isBlank c = false := by
  intro c last
  have ends := l.ends
  rw [Option.mem_def.1 last] at ends
  simpa using ends

/-- Nothing of a literal is seen under a mask. -/
theorem QuotedLiteral.mask_append (l : QuotedLiteral) (t : Text) :
    Literal.mask (l.quoted ++ t) =
      l.quote :: (List.replicate (byteLength l.text) ' ' ++ l.quote :: Literal.mask t) := by
  have written : l.quoted ++ t = l.quote :: (l.text ++ l.quote :: t) := by simp [quoted]
  rw [written, Literal.mask, Literal.maskFrom_none_quote l.quotes, Literal.maskFrom_some_append l.noQuote l.oneLine]
  rfl

end CobolAtlas.Skeleton
