/-
# CobolAtlas.Proofs.Source.Places -- what a mask shows at each place of a text

A literal is opened by a quote outside all other literals, and the next such quote ends it, or the end of its line.
`IsOutside` and `IsInside` say by this grammar alone where a text ends: behind all its literals, or inside one.  Each
text ends in one of the two ways, and the quote that a mask remembers is that of the literal the text ends in
(`isOutside_iff`, `isInside_iff`).

A place of a text is given by what stands before it.  The character there is shown if it stands outside literals, ends
its literal or ends the line (`IsShown`).  The main statement is `mask_places`: a mask is as long as its text, shows
these characters at their bytes and blanks at all other bytes, and is its own mask.  So what is found in the mask can be
cut out of the text, as the literal behind a CALL is (`exists_slice`).
-/
import CobolAtlas.Proofs.Source.Alike
import CobolAtlas.Proofs.Source.OpenLiteral
import Mathlib.Data.List.Induction

namespace CobolAtlas.Literal

set_option autoImplicit false

open Text Source

/-! ## Where a text ends -/

/-- The text ends outside literals: it is put together from characters that are no quotes and from literals, each with
the quote or the end of the line that ends it. -/
inductive IsOutside : Text → Prop where
  | nil : IsOutside []
  | plain {t : Text} {c : Char} (outside : IsOutside t) (plain : Name.isQuote c = false) : IsOutside (t ++ [c])
  | literal {t content : Text} {q c : Char} (outside : IsOutside t) (quote : Name.isQuote q = true)
      (isContent : IsContent q content) (ends : c = q ∨ c = '\n') : IsOutside (t ++ q :: (content ++ [c]))

/-- The text ends inside a literal that `q` opens. -/
def IsInside (q : Char) (t : Text) : Prop :=
  ∃ before content, t = before ++ q :: content ∧ IsOutside before ∧ Name.isQuote q = true ∧ IsContent q content

section

variable {t : Text} {q c : Char}

/-- Every text ends outside literals or inside one. -/
theorem isOutside_or_isInside (t : Text) : IsOutside t ∨ ∃ q, IsInside q t := by
  induction t using List.reverseRecOn with
  | nil => exact .inl .nil
  | append_singleton t c ih =>
    rcases ih with outside | ⟨q, before, content, rfl, outside, quote, isContent⟩
    · cases isQuote : Name.isQuote c with
      | false => exact .inl (outside.plain isQuote)
      | true => exact .inr ⟨c, t, [], rfl, outside, isQuote, List.not_mem_nil, List.not_mem_nil⟩
    · rw [List.append_assoc, List.cons_append]
      by_cases ends : c = q ∨ c = '\n'
      · exact .inl (outside.literal quote isContent ends)
      · obtain ⟨notQuote, notEnd⟩ := not_or.1 ends
        refine .inr ⟨q, before, content ++ [c], rfl, outside, quote, ?_, ?_⟩
        · simp [isContent.noQuote, Ne.symm notQuote]
        · simp [isContent.oneLine, Ne.symm notEnd]

theorem IsOutside.openAfter (outside : IsOutside t) : openAfter none t = none := by
  induction outside with
  | nil => rfl
  | plain outside plain ih =>
    rw [openAfter_append, ih]
    exact openAfter_of_noQuote (List.forall_mem_singleton.2 plain)
  | literal outside quote isContent ends ih =>
    rw [openAfter_append, ih, openAfter_cons, next_none_quote quote, openAfter_append,
      openAfter_some isContent.noQuote isContent.oneLine]
    exact next_some_ends ends

theorem IsInside.openAfter (inside : IsInside q t) : openAfter none t = some q := by
  obtain ⟨before, content, rfl, outside, quote, isContent⟩ := inside
  rw [openAfter_append, outside.openAfter, openAfter_cons, next_none_quote quote,
    openAfter_some isContent.noQuote isContent.oneLine]

/-- No quote is remembered behind a text that ends outside literals, and behind no other. -/
theorem isOutside_iff : IsOutside t ↔ openAfter none t = none := by
  refine ⟨IsOutside.openAfter, fun closed => ?_⟩
  apply (isOutside_or_isInside t).resolve_right
  rintro ⟨q, inside⟩
  rw [inside.openAfter] at closed
  cases closed

/-- The quote remembered is that of the literal in which the text ends. -/
theorem isInside_iff : IsInside q t ↔ openAfter none t = some q := by
  refine ⟨IsInside.openAfter, fun opened => ?_⟩
  rcases isOutside_or_isInside t with outside | ⟨p, inside⟩
  · rw [outside.openAfter] at opened
    cases opened
  · rw [inside.openAfter] at opened
    obtain rfl := Option.some.inj opened
    exact inside

/-! ## What is shown there -/

/-- Behind `before` the character is shown: it stands outside literals, or is the quote that ends its literal, or the
end of the line. -/
def IsShown (before : Text) (c : Char) : Prop := IsOutside before ∨ IsInside c before ∨ c = '\n'

theorem isShown_iff (before : Text) (c : Char) :
    IsShown before c ↔ openAfter none before = none ∨ openAfter none before = some c ∨ c = '\n' := by
  rw [IsShown, isOutside_iff, isInside_iff]

instance (before : Text) (c : Char) : Decidable (IsShown before c) := decidable_of_iff _ (isShown_iff before c).symm

variable {before : Text}

theorem shown_of_isShown (isShown : IsShown before c) : shown (openAfter none before) c = [c] := by
  rcases (isShown_iff before c).1 isShown with closed | ends | newline
  · rw [closed]
    rfl
  · simp [ends, shown]
  · cases openAfter none before with
    | none => rfl
    | some q => simp [newline, shown]

/-- What is not shown stands inside a literal, and blanks stand for it. -/
theorem shown_of_not_isShown (hidden : ¬ IsShown before c) :
    (∃ q, IsInside q before) ∧ shown (openAfter none before) c = List.replicate c.utf8Size ' ' := by
  refine ⟨(isOutside_or_isInside before).resolve_left fun outside => hidden (.inl outside), ?_⟩
  rcases shown_cases (openAfter none before) c with ⟨-, state⟩ | ⟨blanks, -⟩
  · exact absurd ((isShown_iff before c).2 state) hidden
  · exact blanks

/-- The mask of what stands before a place is as long, so the place is at the same byte of the mask. -/
theorem splitAtByte?_mask (before : Text) (c : Char) (after : Text) :
    splitAtByte? (byteLength before) (mask (before ++ c :: after)) =
      some (mask before, shown (openAfter none before) c ++ maskFrom (next (openAfter none before) c) after) := by
  have length : byteLength before = byteLength (mask before) := (byteLength_maskFrom none before).symm
  have parts : mask (before ++ c :: after) =
      mask before ++ (shown (openAfter none before) c ++ maskFrom (next (openAfter none before) c) after) :=
    maskFrom_append none before (c :: after)
  rw [length, parts]
  exact splitAtByte?_append _ _

/-! ## The mask of a mask -/

/-- Blanks inside a literal stay there. -/
theorem maskFrom_some_blanks (quote : Name.isQuote q = true) (n : Nat) (rest : Text) :
    maskFrom (some q) (List.replicate n ' ' ++ rest) = List.replicate n ' ' ++ maskFrom (some q) rest := by
  obtain ⟨stays, blank⟩ := next_some (ne_blank_of_isQuote quote).symm (by decide : ' ' ≠ '\n')
  induction n with
  | zero => rfl
  | succ n ih =>
    rw [List.replicate_succ, List.cons_append, maskFrom, stays, blank, ih]
    rfl

/-- A mask opens and ends the same literals as its text, and what it shows in them is blank already. -/
theorem maskFrom_maskFrom {opened : Option Char} (quotes : ∀ q ∈ opened, Name.isQuote q = true) (t : Text) :
    maskFrom opened (maskFrom opened t) = maskFrom opened t := by
  induction t generalizing opened with
  | nil => rfl
  | cons c t ih =>
    have after := ih (isQuote_of_mem_next quotes c)
    cases opened with
    | none =>
      show c :: maskFrom (next none c) (maskFrom (next none c) t) = c :: maskFrom (next none c) t
      rw [after]
    | some q =>
      by_cases ends : c = q ∨ c = '\n'
      · rw [next_some_ends ends] at after
        rw [maskFrom_some_ends ends, maskFrom_some_ends ends, after]
      · obtain ⟨notQuote, notEnd⟩ := not_or.1 ends
        obtain ⟨stays, blanks⟩ := next_some notQuote notEnd
        rw [stays] at after
        rw [maskFrom, stays, blanks, maskFrom_some_blanks (quotes q rfl), after]

theorem mask_mask (t : Text) : mask (mask t) = mask t := by
  have nothingOpen : ∀ q ∈ (none : Option Char), Name.isQuote q = true := nofun
  exact maskFrom_maskFrom nothingOpen t

/-! ## The literal behind a CALL -/

/-- The literal that a CALL has in the mask lies in the text between two quotes, at the same bytes. -/
theorem exists_slice {toEnd length : Nat} (found : search callOperand? (mask t) = some (.literal toEnd length)) :
    ∃ before content rest, t = before ++ (content ++ rest) ∧ byteLength (content ++ rest) = toEnd ∧
      byteLength content = length := by
  obtain ⟨lead, operand, masked, -, here, -⟩ := (searchFrom_eq_some_iff _ _ _ _).1 found
  obtain ⟨behind, q, body, passed, skipped, quote, rfl, rfl, member⟩ := callOperand?_literal here
  obtain ⟨verb, rfl, -⟩ := exists_spells_of_afterKeyword? passed
  obtain ⟨gap, rfl, -⟩ := exists_gap_of_skipBlanks? skipped
  have notBlank : q ≠ ' ' := ne_blank_of_isQuote quote
  -- the quote that opens the literal is in the text, and so is the next one that the mask shows
  have opening : mask t = (lead ++ (verb ++ gap)) ++ q :: body := by simp [masked]
  obtain ⟨before, inner, rfl, -, shownInner, -⟩ := exists_of_maskFrom_eq_append notBlank opening
  obtain ⟨shownContent, shownRest, rfl, notIn⟩ := List.eq_append_cons_of_mem member
  obtain ⟨content, rest, rfl, isContent, -, -⟩ := exists_of_maskFrom_eq_append notBlank shownInner
  refine ⟨before ++ [q], content, q :: rest, by simp, ?_, ?_⟩
  · rw [← shownInner, byteLength_maskFrom]
  · rw [takeWhile_ne_append notIn, ← isContent, byteLength_maskFrom]

end

/-- **A mask keeps every place.**  A mask has as many bytes as its text.  Each character that stands outside literals,
ends a literal or ends a line is shown at its byte; each other one stands inside a literal, and the mask has there as
many blanks as it has bytes.  A mask is its own mask.  So the range of the literal that a CALL has in the mask
can be cut out of the text: both its ends lie between two characters. -/
theorem mask_places (t : Text) :
    byteLength (mask t) = byteLength t ∧
      (∀ before c after, t = before ++ c :: after →
        (IsShown before c → ∃ rest, splitAtByte? (byteLength before) (mask t) = some (mask before, c :: rest)) ∧
        (¬ IsShown before c → (∃ q, IsInside q before) ∧ ∃ rest,
          splitAtByte? (byteLength before) (mask t) = some (mask before, List.replicate c.utf8Size ' ' ++ rest))) ∧
      mask (mask t) = mask t ∧
      ∀ toEnd length, search callOperand? (mask t) = some (.literal toEnd length) →
        toEnd ≤ byteLength (mask t) ∧ ∃ before content rest,
          splitAtByte? (byteLength (mask t) - toEnd) t = some (before, content ++ rest) ∧
            splitAtByte? length (content ++ rest) = some (content, rest) ∧
            callTarget? t = if (trim content).isEmpty then none else some ⟨trim content, false⟩ := by
  have sameLength : byteLength (mask t) = byteLength t := byteLength_maskFrom none t
  refine ⟨sameLength, ?_, mask_mask t, ?_⟩
  · rintro before c after rfl
    have split := splitAtByte?_mask before c after
    constructor
    · intro isShown
      rw [shown_of_isShown isShown] at split
      exact ⟨_, split⟩
    · intro hidden
      obtain ⟨inside, blanks⟩ := shown_of_not_isShown hidden
      rw [blanks] at split
      exact ⟨inside, _, split⟩
  · intro toEnd length found
    obtain ⟨before, content, rest, rfl, rfl, rfl⟩ := exists_slice found
    have start : byteLength (before ++ (content ++ rest)) - byteLength (content ++ rest) = byteLength before := by
      rw [byteLength_append, Nat.add_sub_cancel_right]
    have first := splitAtByte?_append before (content ++ rest)
    have second := splitAtByte?_append content rest
    rw [sameLength, start]
    refine ⟨by simp, before, content, rest, first, second, ?_⟩
    rw [callTarget?, found]
    simp only [start, byteSlice, first, second]

/-- The text up to the letter in a literal that its line ends. -/
def accentStart : Text := "DISPLAY '".toList

/-- The text up to the end of that line, with a quote of the other kind. -/
def accentLine : Text := accentStart ++ 'é' :: "\"x".toList

/-- The line, and the literal of a CALL on the next one. -/
def accentText : Text := accentLine ++ '\n' :: "CALL \"ÜBER \"".toList

/-- The mask has two blanks for the letter in the open literal and shows the end of its line, and the name behind the
CALL is cut out of the text whole. -/
theorem mask_places_accentText :
    mask accentText = "DISPLAY '    \nCALL \"      \"".toList ∧
      ¬ IsShown accentStart 'é' ∧
      (∃ rest, splitAtByte? (byteLength accentStart) (mask accentText) = some (mask accentStart, [' ', ' '] ++ rest)) ∧
      IsShown accentLine '\n' ∧
      (∃ rest, splitAtByte? (byteLength accentLine) (mask accentText) = some (mask accentLine, '\n' :: rest)) ∧
      search callOperand? (mask accentText) = some (.literal 7 6) ∧
      (∃ before content rest,
        splitAtByte? (byteLength (mask accentText) - 7) accentText = some (before, content ++ rest) ∧
          splitAtByte? 6 (content ++ rest) = some (content, rest) ∧
          callTarget? accentText = if (trim content).isEmpty then none else some ⟨trim content, false⟩) ∧
      callTarget? accentText = some ⟨"ÜBER".toList, false⟩ := by
  obtain ⟨-, places, -, slices⟩ := mask_places accentText
  have hidden : ¬ IsShown accentStart 'é' := by decide
  have isShown : IsShown accentLine '\n' := by decide
  have found : search callOperand? (mask accentText) = some (.literal 7 6) := by rfl
  have letter : accentText = accentStart ++ 'é' :: ("\"x".toList ++ '\n' :: "CALL \"ÜBER \"".toList) := by
    rw [accentText, accentLine, List.append_assoc, List.cons_append]
  have blanks := ((places accentStart 'é' _ letter).2 hidden).2
  have newline := (places accentLine '\n' _ rfl).1 isShown
  exact ⟨by decide +kernel, hidden, blanks, isShown, newline, found, (slices 7 6 found).2, by decide +kernel⟩

end CobolAtlas.Literal
