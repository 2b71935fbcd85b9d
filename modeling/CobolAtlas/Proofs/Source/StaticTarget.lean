/-
# CobolAtlas.Proofs.Source.StaticTarget -- which piece of a text a static CALL names

A CALL is found in the mask of a text, and the program that it names is cut out of the text itself.  What stands in
front of its operand is in the text as it is in the mask, so the quote behind the CALL opens a literal
(`exists_of_mask_call`).  From there the name reaches as far as the next such quote of the mask (`exists_piece`), and
that quote closes the literal only if the literal is closed on its line.

`callTarget?_static` says what a static target is: the content of a literal, or, where the literal ends with its line,
the rest of that line and the text below it as far as the next literal with the same quote (`callTarget?_runsOn`).
-/
import CobolAtlas.Proofs.Source.Alike
import CobolAtlas.Proofs.Source.OpenLiteral

namespace CobolAtlas.Source

set_option autoImplicit false

open Text Literal

/-- The text ends in the word CALL and a gap, both outside literals. -/
def EndsInCall (before : Text) : Prop :=
  ∃ lead verb gap, before = lead ++ (verb ++ gap) ∧ endsOpen true lead = true ∧ openAfter none lead = none ∧
    spells "CALL".toList verb = true ∧ IsGap gap

/-- The rest of a line on which a literal is not closed, and the text on the lines below it, whose own literals are
closed and have another quote. -/
def RunsOn (q : Char) (content : Text) : Prop :=
  ∃ u v, content = u ++ '\n' :: v ∧ IsContent q u ∧ openAfter none v = none ∧ q ∉ mask v

/-- Every literal of the text is closed by its quote, and on its line. -/
def AllClosed (t : Text) : Prop :=
  ∀ before q rest, t = before ++ q :: rest → openAfter none before = none → Name.isQuote q = true →
    ∃ content after, rest = content ++ q :: after ∧ IsContent q content

/-! ## A piece between two quotes of a mask -/

section Piece

variable {q : Char} {u v t rest : Text}

/-- Behind a quote that opens a literal comes its content, and then the same quote, the end of the line or the end of
the text. -/
theorem exists_content (q : Char) (t : Text) :
    ∃ u rest, t = u ++ rest ∧ IsContent q u ∧ ∀ c ∈ rest.head?, c = q ∨ c = '\n' := by
  induction t with
  | nil => exact ⟨[], [], rfl, ⟨List.not_mem_nil, List.not_mem_nil⟩, by simp⟩
  | cons c t ih =>
    by_cases ends : c = q ∨ c = '\n'
    · exact ⟨[], c :: t, rfl, ⟨List.not_mem_nil, List.not_mem_nil⟩, by simpa using ends⟩
    · obtain ⟨u, rest, rfl, content, head⟩ := ih
      obtain ⟨notQuote, notEnd⟩ := not_or.1 ends
      refine ⟨c :: u, rest, rfl, ⟨?_, ?_⟩, head⟩
      · simp [Ne.symm notQuote, content.noQuote]
      · simp [Ne.symm notEnd, content.oneLine]

/-- The first quote `q` that a mask shows opens a literal. -/
theorem exists_first (notBlank : q ≠ ' ') (notEnd : q ≠ '\n') (member : q ∈ mask t) :
    ∃ v after, t = v ++ q :: after ∧ openAfter none v = none ∧ q ∉ mask v := by
  obtain ⟨m, body, split, first⟩ := List.eq_append_cons_of_mem member
  obtain ⟨v, after, rfl, masked, -, state⟩ := exists_of_maskFrom_eq_append notBlank split
  have isFirst : q ∉ mask v := by rwa [mask, masked]
  rcases state with none | same | newline
  · exact ⟨v, after, rfl, none, isFirst⟩
  · -- a literal that `q` ends is opened by `q`, and that is shown before
    rcases quote_of_openAfter same with start | ⟨-, before⟩
    · cases start
    · exact absurd before isFirst
  · exact absurd newline notEnd

/-- A content stops where its literal does. -/
theorem IsContent.dropWhile_append (content : IsContent q u) {c : Char} (ends : c = q ∨ c = '\n') :
    (u ++ c :: rest).dropWhile (fun d => !(d == q || d == '\n')) = c :: rest := by
  induction u with
  | nil => rcases ends with rfl | rfl <;> simp
  | cons d u ih =>
    have notQuote : d ≠ q := fun same => content.noQuote (same ▸ List.mem_cons_self)
    have notEnd : d ≠ '\n' := fun same => content.oneLine (same ▸ List.mem_cons_self)
    have rest : IsContent q u :=
      ⟨fun member => content.noQuote (List.mem_cons_of_mem d member),
        fun member => content.oneLine (List.mem_cons_of_mem d member)⟩
    simpa [notQuote, notEnd] using ih rest

/-- What runs on beyond its line does not begin with a closed literal. -/
theorem not_runsOn (quote : Name.isQuote q = true) {content after : Text} (isContent : IsContent q u)
    (same : u ++ q :: rest = content ++ q :: after) : ¬ RunsOn q content := by
  rintro ⟨u', v, rfl, isContent', -, -⟩
  rw [List.append_assoc, List.cons_append] at same
  have ends : (u ++ q :: rest).dropWhile (fun d => !(d == q || d == '\n')) = q :: rest :=
    isContent.dropWhile_append (.inl rfl)
  rw [same, isContent'.dropWhile_append (.inr rfl)] at ends
  exact ne_newline_of_isQuote quote (List.cons.inj ends).1.symm

/-- Behind a quote that opens a literal, a text reaches the next such quote that its mask shows at the end of the
literal or beyond the end of the line. -/
theorem exists_piece (quote : Name.isQuote q = true) (member : q ∈ maskFrom (some q) t) :
    ∃ content after, t = content ++ q :: after ∧ (IsContent q content ∨ RunsOn q content) ∧
      (maskFrom (some q) t).takeWhile (· != q) = maskFrom (some q) content := by
  have notBlank := ne_blank_of_isQuote quote
  obtain ⟨u, rest, rfl, content, head⟩ := exists_content q t
  have blank : q ∉ maskFrom (some q) u := fun shown => notBlank (eq_blank_of_mem_maskFrom content.noQuote content.oneLine q shown)
  cases rest with
  | nil =>
    rw [List.append_nil] at member
    exact absurd member blank
  | cons c rest =>
    rcases head c rfl with rfl | rfl
    · refine ⟨u, rest, rfl, .inl content, ?_⟩
      rw [maskFrom_append, openAfter_some content.noQuote content.oneLine, maskFrom_some_ends (.inl rfl)]
      exact takeWhile_ne_append blank _
    · -- the line ends in the literal, so the mask goes on outside literals
      have split : maskFrom (some q) (u ++ '\n' :: rest) = maskFrom (some q) u ++ '\n' :: mask rest := by
        rw [maskFrom_append, openAfter_some content.noQuote content.oneLine, maskFrom_some_ends (.inr rfl), mask]
      have inRest : q ∈ mask rest := by
        rw [split, List.mem_append, List.mem_cons] at member
        rcases member with here | newline | later
        · exact absurd here blank
        · exact absurd newline (ne_newline_of_isQuote quote)
        · exact later
      obtain ⟨v, after, rfl, closed, notIn⟩ := exists_first notBlank (ne_newline_of_isQuote quote) inRest
      have piece : maskFrom (some q) (u ++ '\n' :: v) = maskFrom (some q) u ++ '\n' :: mask v := by
        rw [maskFrom_append, openAfter_some content.noQuote content.oneLine, maskFrom_some_ends (.inr rfl), mask]
      have apart : q ∉ maskFrom (some q) (u ++ '\n' :: v) := by
        simp [piece, blank, notIn, ne_newline_of_isQuote quote]
      refine ⟨u ++ '\n' :: v, after, by simp, .inr ⟨u, v, rfl, content, closed, notIn⟩, ?_⟩
      have whole : maskFrom (some q) (u ++ '\n' :: (v ++ q :: after)) =
          maskFrom (some q) (u ++ '\n' :: v) ++ q :: maskFrom (some q) after := by
        rw [split, piece, mask, maskFrom_append, closed, maskFrom_none_quote quote, List.append_assoc,
          List.cons_append, mask]
      rw [whole]
      exact takeWhile_ne_append apart _

end Piece

/-! ## The quote behind a CALL -/

section Call

variable {t : Text}

/-- What the mask shows as a CALL and a quote is so in the text, and the quote opens a literal. -/
theorem exists_of_mask_call {lead verb gap body : Text} {q : Char} (masked : mask t = lead ++ (verb ++ (gap ++ q :: body)))
    (isOpen : endsOpen true lead = true) (spelled : spells "CALL".toList verb = true) (isGap : IsGap gap)
    (quote : Name.isQuote q = true) :
    ∃ before rest, t = before ++ q :: rest ∧ EndsInCall before ∧ openAfter none before = none ∧
      maskFrom (some q) rest = body := by
  have word : IsWord verb := isWord_of_spells (by decide) spelled
  obtain ⟨c, letters, rfl⟩ : ∃ c letters, verb = c :: letters := by
    cases verb with
    | nil => cases spelled
    | cons c letters => exact ⟨c, letters, rfl⟩
  have notQuote : Name.isQuote c = false := spares_isNameCharacter.noQuote word c List.mem_cons_self
  have notBlank : c ≠ ' ' := by
    rintro rfl
    exact absurd word.head (by decide)
  obtain ⟨start, rest, rfl, rfl, shown, state⟩ := exists_of_maskFrom_eq_append notBlank masked
  -- a letter neither ends a literal nor the line
  have closed : openAfter none start = none := by
    rcases state with none | same | rfl
    · exact none
    · rcases quote_of_openAfter same with opened | ⟨isQuote, -⟩
      · cases opened
      · rw [isQuote] at notQuote
        cases notQuote
    · exact absurd word.head (by decide)
  have goesOn : next (openAfter none start) c = none := by rw [closed, next_none_plain notQuote]
  rw [goesOn] at shown
  have plain : ∀ d ∈ c :: letters ++ gap, Name.isQuote d = false :=
    List.forall_mem_append.2 ⟨spares_isNameCharacter.noQuote word, spares_isBlank.noQuote isGap.blank⟩
  have upTo : mask (c :: rest) = (c :: letters ++ gap) ++ q :: body := by
    rw [mask_cons notQuote, mask, shown]
    simp
  obtain ⟨operand, isRest, masked⟩ := exists_of_mask_eq_append plain quote upTo
  refine ⟨start ++ (c :: letters ++ gap), operand, ?_, ⟨start, c :: letters, gap, rfl, ?_, closed, spelled, isGap⟩, ?_,
    masked⟩
  · simp [isRest]
  · have lastShown := getLast?_mask closed
    rw [mask] at lastShown
    simpa only [endsOpen, lastShown] using isOpen
  · rw [openAfter_append, closed, openAfter_of_noQuote plain]

end Call

/-! ## Static targets -/

/-- **A static CALL names a literal, or what runs on from one that its line ends.**  The word CALL stands outside
literals, and the quote behind it opens a literal.  The target is, trimmed, what stands between that quote and another:
the content of the literal, or the rest of the line and the text below it.  It is the content, and on one line, if
every literal of the text is closed on its line, or if the text is one line. -/
theorem callTarget?_static {t name : Text} (found : callTarget? t = some ⟨name, false⟩) :
    ∃ before q content after, t = before ++ q :: (content ++ q :: after) ∧ EndsInCall before ∧
      openAfter none before = none ∧ Name.isQuote q = true ∧ name = trim content ∧
      (IsContent q content ∨ RunsOn q content) ∧
      (AllClosed t ∨ '\n' ∉ t → IsContent q content ∧ '\n' ∉ name) := by
  rw [callTarget?] at found
  split at found
  · cases found
  · cases found
  · rename_i toEnd length searched
    have isName : name = trim (textBeforeEnd toEnd length t) := by
      simp only at found
      split at found
      · cases found
      · exact (congrArg CallTarget.program (Option.some.inj found)).symm
    obtain ⟨lead, rest, masked, isOpen, here, -⟩ := (searchFrom_eq_some_iff _ _ _ _).1 searched
    obtain ⟨operand, q, body, passed, skipped, quote, rfl, rfl, member⟩ := callOperand?_literal here
    obtain ⟨verb, rfl, spelled⟩ := exists_spells_of_afterKeyword? passed
    obtain ⟨gap, rfl, isGap⟩ := exists_gap_of_skipBlanks? skipped
    obtain ⟨before, rest, rfl, endsInCall, closed, rfl⟩ := exists_of_mask_call masked isOpen spelled isGap quote
    obtain ⟨content, after, rfl, cases, upTo⟩ := exists_piece quote member
    have piece : name = trim content := by
      have within := textBeforeEnd_append (Nat.le_refl (byteLength (content ++ q :: after))) (byteLength content)
        (before ++ [q])
      rw [List.append_assoc, List.singleton_append, textBeforeEnd_append_self] at within
      rw [isName, upTo, byteLength_maskFrom, byteLength_maskFrom, within]
    refine ⟨before, q, content, after, rfl, endsInCall, closed, quote, piece, cases, fun onOneLine => ?_⟩
    have isContent : IsContent q content := by
      apply cases.resolve_right
      rcases onOneLine with allClosed | oneLine
      · obtain ⟨u, after', same, isContent⟩ := allClosed before q _ rfl closed quote
        exact not_runsOn quote isContent same.symm
      · rintro ⟨u, v, rfl, -, -, -⟩
        exact oneLine (by simp)
    refine ⟨isContent, fun newline => isContent.oneLine ?_⟩
    rw [piece] at newline
    exact mem_of_mem_trim newline

/-- A CALL in a literal is none, and the name behind the next one is trimmed. -/
theorem callTarget?_static_trimmed :
    ∃ before q content after,
      "DISPLAY \"CALL 'A'\"\n    Call 'PAY ROLL '".toList = before ++ q :: (content ++ q :: after) ∧ EndsInCall before ∧
        openAfter none before = none ∧ Name.isQuote q = true ∧ "PAY ROLL".toList = trim content ∧
        (IsContent q content ∨ RunsOn q content) ∧
        (AllClosed "DISPLAY \"CALL 'A'\"\n    Call 'PAY ROLL '".toList ∨
            '\n' ∉ "DISPLAY \"CALL 'A'\"\n    Call 'PAY ROLL '".toList →
          IsContent q content ∧ '\n' ∉ "PAY ROLL".toList) :=
  callTarget?_static (by decide +kernel)

/-- A name that its line does not close runs on to the next literal, and no literal of the text is the name. -/
theorem callTarget?_runsOn :
    callTarget? "CALL 'ABC\nDISPLAY 'X'".toList = some ⟨"ABC\nDISPLAY".toList, false⟩ ∧
      ¬ ∃ before q content after, "CALL 'ABC\nDISPLAY 'X'".toList = before ++ q :: (content ++ q :: after) ∧
        openAfter none before = none ∧ Name.isQuote q = true ∧ IsContent q content ∧
        "ABC\nDISPLAY".toList = trim content := by
  refine ⟨by decide, ?_⟩
  rintro ⟨before, q, content, after, -, -, -, isContent, name⟩
  have newline : '\n' ∈ trim content := by
    rw [← name]
    decide
  exact isContent.oneLine (mem_of_mem_trim newline)

end CobolAtlas.Source
