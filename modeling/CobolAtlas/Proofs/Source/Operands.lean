/-
# CobolAtlas.Proofs.Source.Operands -- a statement at the start of a text

The verb of a statement may be in any letter case (`spells`), and any blanks may stand between two of its words
(`IsGap`).  So it is found at the start of a text, and its operands are read: the content of a literal or a data name
after CALL (`callTarget?_content`, `callTarget?_dataName`), the procedure and the two words behind it after PERFORM
(`performRange?_words`), and the word after GO or GO TO (`goToTarget?_word`, `goToTarget?_to`).  What stands behind a
verb stands outside literals, so it is read the same of a text and its mask (`performWords?_mask`, `goToWord?_mask`).
-/
import CobolAtlas.Proofs.Source.Alike
import CobolAtlas.Proofs.Text.LetterCase

namespace CobolAtlas.Source

set_option autoImplicit false

open Text

/-! ## Masks -/

theorem endsName_mask (t : Text) : endsName (Literal.mask t) = endsName t := by
  cases t <;> rfl

theorem mask_word_append {w : Text} (word : IsWord w) (t : Text) : Literal.mask (w ++ t) = w ++ Literal.mask t :=
  Literal.maskFrom_none_append (Literal.spares_isNameCharacter.noQuote word) t

theorem mask_gap_append {g : Text} (gap : IsGap g) (t : Text) : Literal.mask (g ++ t) = g ++ Literal.mask t :=
  Literal.maskFrom_none_append (Literal.spares_isBlank.noQuote gap.blank) t

theorem mask_content_append {q : Char} {u : Text} (quote : Name.isQuote q = true) (content : IsContent q u) (t : Text) :
    Literal.mask (q :: (u ++ q :: t)) = q :: (List.replicate (byteLength u) ' ' ++ q :: Literal.mask t) := by
  rw [Literal.mask, Literal.maskFrom_none_quote quote, Literal.maskFrom_some_append content.noQuote content.oneLine,
    Literal.mask]

theorem nextName?_mask (t : Text) :
    nextName? (Literal.mask t) = (nextName? t).map fun (name, rest) => (name, Literal.mask rest) := by
  rw [nextName?, skipBlanks?_mask, nextName?]
  cases skipBlanks? t with
  | none => rfl
  | some rest => exact name?_mask rest

theorem gap?_mask (t : Text) : gap? (Literal.mask t) = (gap? t).map fun (gap, rest) => (gap, Literal.mask rest) := by
  rw [gap?, gap?, Literal.takeWhile_mask Literal.spares_isBlank, Literal.dropWhile_mask Literal.spares_isBlank]
  cases t.takeWhile isBlank <;> rfl

/-- The words behind a PERFORM stand outside literals. -/
theorem performWords?_mask (t : Text) : performWords? (Literal.mask t) = performWords? t := by
  have verb : isKeyword "PERFORM".toList = true := by decide
  rw [performWords?, performWords?, afterKeyword?_mask t verb]
  cases afterKeyword? "PERFORM".toList t with
  | none => rfl
  | some rest =>
    simp only [Option.map_some, Option.bind_eq_bind, Option.bind_some, gap?_mask]
    cases gap? rest with
    | none => rfl
    | some gap =>
      simp only [Option.map_some, Option.bind_some, name?_mask]
      cases name? gap.2 with
      | none => rfl
      | some first =>
        simp only [Option.map_some, Option.bind_some, nextName?_mask]
        cases nextName? first.2 with
        | none => rfl
        | some second => cases third : nextName? second.2 <;> simp [nextName?_mask, third]

/-- The word behind a GO TO stands outside literals. -/
theorem goToWord?_mask (t : Text) : goToWord? (Literal.mask t) = goToWord? t := by
  have verb : isKeyword "GO".toList = true := by decide
  have isTo : isKeyword "TO".toList = true := by decide
  rw [goToWord?, goToWord?, afterKeyword?_mask t verb]
  cases afterKeyword? "GO".toList t with
  | none => rfl
  | some rest =>
    simp only [Option.map_some, Option.bind_eq_bind, Option.bind_some, skipBlanks?_mask]
    cases skipBlanks? rest with
    | none => rfl
    | some rest =>
      have target : ((afterKeyword? "TO".toList rest).map Literal.mask).bind nextName? =
          ((afterKeyword? "TO".toList rest).bind nextName?).map fun (name, rest) => (name, Literal.mask rest) := by
        cases afterKeyword? "TO".toList rest with
        | none => rfl
        | some rest => exact nextName?_mask rest
      simp only [Option.map_some, Option.bind_some, afterKeyword?_mask rest isTo, target, name?_mask]
      cases (afterKeyword? "TO".toList rest).bind nextName? with
      | none => cases name? rest <;> rfl
      | some found => rfl

/-! ## Words -/

section Words

variable {g w rest : Text}

theorem head_of_word (rest : Text) (nonempty : w ≠ []) (word : IsWord w) : ∀ c ∈ (w ++ rest).head?, isBlank c = false := by
  obtain ⟨c, w, rfl⟩ := List.exists_cons_of_ne_nil nonempty
  rintro d ⟨⟩
  exact isBlank_of_isNameCharacter word.head

theorem nextName?_append (gap : IsGap g) (nonempty : w ≠ []) (word : IsWord w) (ends : endsName rest = true) :
    nextName? (g ++ (w ++ rest)) = some (w, rest) := by
  rw [nextName?, gap.skipBlanks?_append (head_of_word rest nonempty word), Option.bind_some,
    name?_append nonempty word ends]

/-- The next name stands behind a gap. -/
theorem of_nextName? {t : Text} (read : nextName? t = some (w, rest)) :
    ∃ g, t = g ++ (w ++ rest) ∧ IsGap g ∧ endsName rest = true := by
  rw [nextName?, Option.bind_eq_some_iff] at read
  obtain ⟨named, skipped, read⟩ := read
  obtain ⟨g, rfl, gap⟩ := exists_gap_of_skipBlanks? skipped
  obtain ⟨rfl, -, -⟩ := of_name? read
  exact ⟨g, rfl, gap, endsName_of_name? read⟩

end Words

/-! ## Operands -/

section Operands

variable {verb g w rest : Text}

theorem callOperand?_dataName (spelled : spells "CALL".toList verb = true) (gap : IsGap g) (nonempty : w ≠ [])
    (word : IsWord w) (start : ∀ c ∈ w.head?, isLetterOrDigit c = true) (ends : endsName rest = true) :
    callOperand? (verb ++ (g ++ (w ++ rest))) = some (.dataName w) := by
  have passed := afterKeyword?_of_spells spelled (g ++ (w ++ rest))
  have skipped := gap.skipBlanks?_append (head_of_word rest nonempty word)
  obtain ⟨c, t, rfl⟩ := List.exists_cons_of_ne_nil nonempty
  have name : (t ++ rest).takeWhile isNameCharacter = t := by
    rw [List.takeWhile_append_of_pos word.tail, takeWhile_eq_nil_of_endsName ends, List.append_nil]
  have notQuote : Name.isQuote c = false := Literal.spares_isNameCharacter.noQuote word c List.mem_cons_self
  have letter : isLetterOrDigit c = true := start c rfl
  rw [List.cons_append] at passed skipped ⊢
  simp only [callOperand?, passed, skipped, Option.bind_eq_bind, Option.bind_some, notQuote, letter, name, if_true,
    Bool.false_eq_true, if_false]

/-- A masked literal is as wide as the text in it. -/
theorem callOperand?_content (spelled : spells "CALL".toList verb = true) (gap : IsGap g) {q : Char}
    (quote : Name.isQuote q = true) (content : IsContent q w) (nonempty : w ≠ []) (rest : Text) :
    callOperand? (verb ++ (g ++ Literal.mask (q :: (w ++ q :: rest)))) =
      some (.literal (byteLength (w ++ q :: rest)) (byteLength w)) := by
  have notBlank : isBlank q = false := Literal.spares_isBlank q quote
  obtain ⟨body, isBody⟩ : ∃ body, body = List.replicate (byteLength w) ' ' ++ q :: Literal.mask rest := ⟨_, rfl⟩
  have passed := afterKeyword?_of_spells spelled (g ++ q :: body)
  have skipped : skipBlanks? (g ++ q :: body) = some (q :: body) :=
    gap.skipBlanks?_append (by rintro c ⟨⟩; exact notBlank)
  have shown : body.takeWhile (· != q) = List.replicate (byteLength w) ' ' := by
    rw [isBody]
    exact takeWhile_ne_append (Literal.notMem_blanks quote _) _
  have wide : (List.replicate (byteLength w) ' ').isEmpty = false := by
    obtain ⟨c, t, rfl⟩ := List.exists_cons_of_ne_nil nonempty
    have size := c.utf8Size_pos
    rw [byteLength_cons, List.isEmpty_replicate, decide_eq_false_iff_not]
    omega
  have closed : body.contains q = true := by simp [isBody]
  have width : byteLength body = byteLength (w ++ q :: rest) := by
    simp only [isBody, byteLength_append, byteLength_cons, Literal.byteLength_replicate_blank, Literal.mask,
      Literal.byteLength_maskFrom]
  rw [mask_content_append quote content, ← isBody]
  simp only [callOperand?, passed, Option.bind_eq_bind, Option.bind_some, skipped, quote, shown, wide, closed, width,
    Literal.byteLength_replicate_blank, if_true, Bool.not_true, Bool.or_self, Bool.false_eq_true, if_false]

/-- The words behind a PERFORM. -/
theorem performWords?_words (spelled : spells "PERFORM".toList verb = true) (gap : IsGap g) (nonempty : w ≠ [])
    (word : IsWord w) (ends : endsName rest = true) :
    performWords? (verb ++ (g ++ (w ++ rest))) =
      some ⟨g, w, (nextName? rest).map (·.1), (nextName? rest).bind fun next => (nextName? next.2).map (·.1)⟩ := by
  have passed := afterKeyword?_of_spells spelled (g ++ (w ++ rest))
  have first := name?_append nonempty word ends
  simp only [performWords?, passed, Option.bind_eq_bind, Option.bind_some,
    gap.gap?_append (head_of_word rest nonempty word), first]
  cases nextName? rest <;> rfl

/-- The word behind a GO. -/
theorem goToWord?_word (spelled : spells "GO".toList verb = true) (gap : IsGap g) (nonempty : w ≠ []) (word : IsWord w)
    (notTo : spells "TO".toList w = false) (ends : endsName rest = true) :
    goToWord? (verb ++ (g ++ (w ++ rest))) = some w := by
  have passed := afterKeyword?_of_spells spelled (g ++ (w ++ rest))
  have skipped := gap.skipBlanks?_append (head_of_word rest nonempty word)
  have noTo : (afterKeyword? "TO".toList (w ++ rest)).bind nextName? = none := by
    refine afterKeyword?_bind_eq_none (fun c t name => ?_) (by decide) word ends notTo
    rw [nextName?, skipBlanks?_eq_none (isBlank_of_isNameCharacter name), Option.bind_none]
  simp only [goToWord?, passed, Option.bind_eq_bind, Option.bind_some, skipped, noTo, name?_append nonempty word ends,
    Option.map_some]

/-- The word behind a GO TO. -/
theorem goToWord?_to (spelled : spells "GO".toList verb = true) (gap : IsGap g) {between g' : Text}
    (spelled' : spells "TO".toList between = true) (gap' : IsGap g') (nonempty : w ≠ []) (word : IsWord w)
    (ends : endsName rest = true) : goToWord? (verb ++ (g ++ (between ++ (g' ++ (w ++ rest))))) = some w := by
  have isTo : IsWord between := isWord_of_spells (by decide) spelled'
  have written : between ≠ [] := by
    rintro rfl
    cases spelled'
  have passed := afterKeyword?_of_spells spelled (g ++ (between ++ (g' ++ (w ++ rest))))
  have skipped := gap.skipBlanks?_append (head_of_word (g' ++ (w ++ rest)) written isTo)
  have passed' := afterKeyword?_of_spells spelled' (g' ++ (w ++ rest))
  simp only [goToWord?, passed, Option.bind_eq_bind, Option.bind_some, skipped, passed',
    nextName?_append gap' nonempty word ends]

end Operands

/-! ## Targets -/

section Targets

variable {verb g w rest : Text}

/-- What stands in front of a text does not matter to its CALL where the search goes through it. -/
theorem callTarget?_append_of_search {before t : Text}
    (same : search callOperand? (Literal.mask (before ++ t)) = search callOperand? (Literal.mask t)) :
    callTarget? (before ++ t) = callTarget? t := by
  rw [callTarget?, callTarget?, same]
  cases found : search callOperand? (Literal.mask t) with
  | none => rfl
  | some operand =>
    cases operand with
    | dataName name => rfl
    | literal toEnd length =>
      have content := textBeforeEnd_append (toEnd_le_of_masked found) length before
      simp only [textBeforeEnd] at content
      simp only [content]

theorem callTarget?_dataName (spelled : spells "CALL".toList verb = true) (gap : IsGap g) (nonempty : w ≠ [])
    (word : IsWord w) (start : ∀ c ∈ w.head?, isLetterOrDigit c = true) (ends : endsName rest = true) :
    callTarget? (verb ++ (g ++ (w ++ rest))) = some ⟨w, true⟩ := by
  have isVerb : IsWord verb := isWord_of_spells (by decide) spelled
  rw [← endsName_mask] at ends
  rw [callTarget?, mask_word_append isVerb, mask_gap_append gap, mask_word_append word,
    search_eq_some callOperand? (callOperand?_dataName spelled gap nonempty word start ends)]

/-- The bytes that a masked literal tells of are those of its content. -/
theorem callTarget?_content (spelled : spells "CALL".toList verb = true) (gap : IsGap g) {q : Char}
    (quote : Name.isQuote q = true) (content : IsContent q w) (notBlank : trim w ≠ []) (rest : Text) :
    callTarget? (verb ++ (g ++ q :: (w ++ q :: rest))) = some ⟨trim w, false⟩ := by
  have isVerb : IsWord verb := isWord_of_spells (by decide) spelled
  have nonempty : w ≠ [] := by
    rintro rfl
    exact notBlank rfl
  have named : (trim w).isEmpty = false := by
    cases name : trim w with
    | nil => exact absurd name notBlank
    | cons c name => rfl
  have written : verb ++ (g ++ q :: (w ++ q :: rest)) = (verb ++ (g ++ [q])) ++ (w ++ q :: rest) := by simp
  have piece : textBeforeEnd (byteLength (w ++ q :: rest)) (byteLength w) (verb ++ (g ++ q :: (w ++ q :: rest))) = w := by
    rw [written, textBeforeEnd_append (Nat.le_refl _), textBeforeEnd_append_self]
  rw [textBeforeEnd] at piece
  rw [callTarget?, mask_word_append isVerb, mask_gap_append gap,
    search_eq_some callOperand? (callOperand?_content spelled gap quote content nonempty rest)]
  simp only [piece, named, Bool.false_eq_true, if_false]

/-- The range of a PERFORM depends on the gap behind the verb, the procedure and the two words behind it. -/
theorem performRange?_words (spelled : spells "PERFORM".toList verb = true) (gap : IsGap g) (nonempty : w ≠ [])
    (word : IsWord w) (ends : endsName rest = true) :
    performRange? (verb ++ (g ++ (w ++ rest))) =
      if '\n' ∈ g ∨ isProcedureName w = false then none
      else match nextName? rest with
        | none => some ⟨w, none⟩
        | some (second, after) =>
            if isOneOf ["TIMES".toList] second then none
            else if isOneOf ["THRU".toList, "THROUGH".toList] second then some ⟨w, (nextName? after).map (·.1)⟩
            else some ⟨w, none⟩ := by
  have found := search_eq_some performWords? ((performWords?_mask _).trans
    (performWords?_words spelled gap nonempty word ends))
  have refused : (g.contains '\n' || !isProcedureName w) = true ↔ '\n' ∈ g ∨ isProcedureName w = false := by simp
  rw [performRange?, found, Option.bind_some, PerformWords.range?, if_congr refused rfl rfl]
  cases nextName? rest <;> rfl

theorem goToTarget?_of_word {t : Text} (found : goToWord? t = some w) :
    goToTarget? t = if isOneOf ["DEPENDING".toList, "TO".toList] w then none else some w := by
  rw [goToTarget?, search_eq_some goToWord? ((goToWord?_mask t).trans found)]

end Targets

end CobolAtlas.Source
