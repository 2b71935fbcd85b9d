/-
# CobolAtlas.Proofs.Source.IdentificationArea -- what stands past column 72

A card is a line in fixed format that goes on past column 72.  Its columns are the characters that end with column 72
or before it (`CardStart`); what follows begins past that column, or it lies across its end (`CardStart.Ends`).  Two
cards with the same 72 columns, byte for byte, have the same start (`SameColumns.exists_card`).

If the columns are full, the card is read as far as they go.  If a character lies across the end of column 72, nothing
is cut off: that character and all that follows is read as program text, unless the columns are a comment or one has
begun in them.  `codeArea_columns_iff` says that the identification is read on no other card (`Leaks`), and that the
cards of a text that do not leak can bear any identification without a change to its program.
-/
import CobolAtlas.Proofs.Source.Line
import CobolAtlas.Proofs.Text.Utf8
import CobolAtlas.Source.Scan
import Mathlib.Data.List.Forall2
import Mathlib.Data.List.TakeWhile

namespace CobolAtlas.Source

set_option autoImplicit false

open Text Utf8

/-! ## Cards -/

/-- Does the layout have columns? -/
def Layout.hasColumns : Layout → Bool
  | .fixed _ _ _ => true
  | .free _ => false

/-- A line in fixed format that goes on past column 72. -/
structure IsCard (line : Text) : Prop where
  fixed : (Layout.ofLine line).hasColumns = true
  long : 72 < byteLength line

instance (line : Text) : Decidable (IsCard line) :=
  decidable_of_iff ((Layout.ofLine line).hasColumns = true ∧ 72 < byteLength line)
    ⟨fun ⟨fixed, long⟩ => ⟨fixed, long⟩, fun ⟨fixed, long⟩ => ⟨fixed, long⟩⟩

/-- Two cards with the same bytes in columns 1 to 72. -/
structure SameColumns (line line' : Text) : Prop where
  card : IsCard line
  card' : IsCard line'
  columns : (encode line).take 72 = (encode line').take 72

instance (line line' : Text) : Decidable (SameColumns line line') :=
  decidable_of_iff (IsCard line ∧ IsCard line' ∧ (encode line).take 72 = (encode line').take 72)
    ⟨fun ⟨card, card', columns⟩ => ⟨card, card', columns⟩, fun ⟨card, card', columns⟩ => ⟨card, card', columns⟩⟩

/-- What a card begins with: a sequence area, an indicator of one column, and characters of its text that end with
column 72 or before it. -/
structure CardStart where
  sequence : Text
  indicator : Char
  columns : Text
  six : byteLength sequence = 6
  fixed : isFixed sequence indicator = true
  narrow : indicator.utf8Size = 1
  within : byteLength columns ≤ 65

namespace CardStart

def text (s : CardStart) : Text := s.sequence ++ s.indicator :: s.columns

/-- The card with this start. -/
def card (s : CardStart) (tail : Text) : Text := s.text ++ tail

/-- Are the columns all that end with column 72 or before it? -/
def Ends (s : CardStart) (tail : Text) : Prop :=
  ∃ c rest, tail = c :: rest ∧ 65 < byteLength s.columns + c.utf8Size

/-- The columns do not reach the end of column 72, they are no comment, and none begins in them. -/
structure IsOpen (s : CardStart) : Prop where
  short : byteLength s.columns < 65
  indicator : s.indicator ≠ '*' ∧ s.indicator ≠ '/'
  star : (trimStart s.columns).head? ≠ some '*'
  mark : ¬ "*>".toList <:+: s.columns

end CardStart

/-- Is what stands past column 72 read?  It is if a character lies across the end of that column, and no comment has
begun before it. -/
def Leaks (line : Text) : Prop := ∃ s : CardStart, ∃ tail, line = s.card tail ∧ s.Ends tail ∧ s.IsOpen

/-! ## The end of column 72 -/

section Cut

variable {n : Nat} {a t : Text} {c : Char} {rest : Text}

/-- There is no cut inside a character. -/
theorem splitAtByte?_inside (before : byteLength a < n) (past : n < byteLength a + c.utf8Size) :
    splitAtByte? n (a ++ c :: rest) = none := by
  cases cut : splitAtByte? n (a ++ c :: rest) with
  | none => rfl
  | some parts =>
    obtain ⟨split, length⟩ := append_of_splitAtByte? (a := parts.1) (b := parts.2) cut
    rcases List.append_eq_append_iff.1 split with ⟨more, first, later⟩ | ⟨more, first, later⟩
    · rw [first, byteLength_append] at length
      cases more with
      | nil => simp only [byteLength_nil] at length; omega
      | cons d more =>
        obtain ⟨rfl, -⟩ := List.cons.inj later
        rw [byteLength_cons] at length
        omega
    · rw [first, byteLength_append] at before
      omega

/-- A text of more than `n` bytes has a first character that does not end within them. -/
theorem exists_append_of_lt_byteLength (long : n < byteLength t) :
    ∃ a c rest, t = a ++ c :: rest ∧ byteLength a ≤ n ∧ n < byteLength a + c.utf8Size := by
  induction t generalizing n with
  | nil => simp only [byteLength_nil, Nat.not_lt_zero] at long
  | cons c t ih =>
    by_cases past : n < c.utf8Size
    · exact ⟨[], c, t, rfl, Nat.zero_le n, by simpa using past⟩
    · rw [byteLength_cons] at long
      obtain ⟨a, d, rest, rfl, within, later⟩ := @ih (n - c.utf8Size) (by omega)
      refine ⟨c :: a, d, rest, rfl, ?_, ?_⟩ <;> rw [byteLength_cons] <;> omega

/-- Where a text is not blank it begins as before with whatever is behind it. -/
theorem head?_trimStart_append (a b : Text) :
    (trimStart (a ++ b)).head? = (trimStart a).head?.or (trimStart b).head? := by
  rw [trimStart, List.dropWhile_append, ← trimStart, ← trimStart]
  cases trimStart a <;> rfl

end Cut

/-! ## What is read on a card -/

namespace CardStart

section Ends

variable {s : CardStart} {tail tail' : Text}

theorem byteLength_text (s : CardStart) : byteLength s.text = 7 + byteLength s.columns := by
  rw [text, byteLength_append, byteLength_cons, s.six, s.narrow]
  omega

theorem ofLine_card (s : CardStart) (tail : Text) :
    Layout.ofLine (s.card tail) = .fixed s.sequence s.indicator (s.columns ++ tail) := by
  rw [card, text, List.append_assoc, List.cons_append, ofLine_fixed _ s.six s.fixed]

theorem isCard (ends : s.Ends tail) : IsCard (s.card tail) where
  fixed := by
    rw [ofLine_card]
    rfl
  long := by
    obtain ⟨c, rest, rfl, past⟩ := ends
    rw [card, byteLength_append, byteLength_text, byteLength_cons]
    omega

/-- What stands behind the character that ends past column 72 is not in the columns. -/
theorem sameColumns {c : Char} {rest : Text} (ends : s.Ends (c :: rest)) (rest' : Text) :
    SameColumns (s.card (c :: rest)) (s.card (c :: rest')) := by
  obtain ⟨d, tail, same, past⟩ := ends
  obtain ⟨rfl, rfl⟩ := List.cons.inj same
  have long : 72 ≤ (encode (s.card [c])).length := by
    rw [length_encode, card, byteLength_append, byteLength_text, byteLength_cons, byteLength_nil]
    omega
  have cut (r : Text) : (encode (s.card (c :: r))).take 72 = (encode (s.card [c])).take 72 := by
    have behind : s.card (c :: r) = s.card [c] ++ r := by simp [card]
    rw [behind, encode_append, List.take_append_of_le_length long]
  exact ⟨isCard ⟨c, rest, rfl, past⟩, isCard ⟨c, rest', rfl, past⟩, (cut rest).trans (cut rest').symm⟩

/-- A card is read as far as its columns go if they are full, and else to its end. -/
theorem codeArea_card (ends : s.Ends tail) :
    codeArea (s.card tail) =
      let area := if byteLength s.columns = 65 then s.columns else s.columns ++ tail
      if s.indicator = '*' ∨ s.indicator = '/' ∨ (trimStart area).head? = some '*' then none
      else some (beforeComment area) := by
  have area : programArea s.indicator (s.columns ++ tail) =
      if byteLength s.columns = 65 then s.columns else s.columns ++ tail := by
    split
    · rename_i full
      exact programArea_append s.narrow full tail
    · rename_i short
      obtain ⟨c, rest, rfl, past⟩ := ends
      have before : byteLength s.columns < 65 := Nat.lt_of_le_of_ne s.within short
      rw [programArea, if_pos s.narrow, splitAtByte?_inside before past]
  rw [codeArea, ofLine_card]
  simp only [area]

/-- If the start is not open, what follows is not read. -/
theorem codeArea_congr (shut : ¬ s.IsOpen) (ends : s.Ends tail) (ends' : s.Ends tail') :
    codeArea (s.card tail') = codeArea (s.card tail) := by
  rw [codeArea_card ends, codeArea_card ends']
  by_cases full : byteLength s.columns = 65
  · simp only [full, if_true]
  by_cases comment : s.indicator = '*' ∨ s.indicator = '/'
  · have ignored (area : Text) :
        s.indicator = '*' ∨ s.indicator = '/' ∨ (trimStart area).head? = some '*' := by
      rw [← or_assoc]
      exact .inl comment
    rw [if_pos (ignored _), if_pos (ignored _)]
  by_cases star : (trimStart s.columns).head? = some '*'
  · simp only [full, if_false, head?_trimStart_append, star, Option.some_or, or_true, if_true]
  have mark : "*>".toList <:+: s.columns := Classical.byContradiction fun unmarked =>
    shut ⟨Nat.lt_of_le_of_ne s.within full, not_or.1 comment, star, unmarked⟩
  -- the mark shows that the columns are not blank, so that both cards begin with the same character
  have notBlank : ∃ c, (trimStart s.columns).head? = some c := by
    rw [← Option.isSome_iff_exists, List.isSome_head?]
    intro blank
    have member : '*' ∈ s.columns := mark.subset (by decide)
    exact absurd (List.dropWhile_eq_nil_iff.1 blank _ member) (by decide)
  obtain ⟨c, first⟩ := notBlank
  simp only [full, if_false, head?_trimStart_append, first, Option.some_or, beforeComment_append_of_mark mark]

/-- If the start is open, the character that ends past column 72 is read, and what follows it as well. -/
theorem codeArea_ne (isOpen : s.IsOpen) {c : Char} (past : 65 < byteLength s.columns + c.utf8Size) :
    codeArea (s.card [c, 'X']) ≠ codeArea (s.card [c]) := by
  have wide : 1 < c.utf8Size := by
    have short := isOpen.short
    omega
  have notStar : '*' ≠ c := by rintro rfl; exact absurd wide (by decide)
  have notEnd : c ≠ '>' := by rintro rfl; exact absurd wide (by decide)
  have read (r : Text) (plain : '*' ∉ c :: r) : codeArea (s.card (c :: r)) = some (s.columns ++ c :: r) := by
    have begins : (trimStart (s.columns ++ c :: r)).head? ≠ some '*' := by
      rw [head?_trimStart_append, Ne, Option.or_eq_some_iff, not_or]
      refine ⟨isOpen.star, fun ⟨_, first⟩ => plain ?_⟩
      exact (List.dropWhile_suffix _).subset (List.mem_of_mem_head? first)
    have noComment : beforeComment (s.columns ++ c :: r) = s.columns ++ c :: r := by
      have whole : beforeComment (c :: r) = c :: r := beforeComment_eq_self fun mark => plain (mark.subset (by decide))
      have meet : s.columns.getLast? = some '*' → (c :: r).head? ≠ some '>' := by simpa using fun _ => notEnd
      rw [beforeComment_append (beforeComment_eq_self isOpen.mark) meet, whole]
    rw [codeArea_card ⟨c, r, rfl, past⟩, if_neg (Nat.ne_of_lt isOpen.short)]
    simp [isOpen.indicator, begins, noComment]
  rw [read ['X'] (by simpa using notStar), read [] (by simpa using notStar)]
  simp

end Ends

end CardStart

/-! ## Cards with the same columns -/

section SameColumns

variable {line line' : Text}

theorem SameColumns.symm (same : SameColumns line line') : SameColumns line' line :=
  ⟨same.card', same.card, same.columns.symm⟩

/-- What ends within the columns of one card the other one begins with. -/
theorem SameColumns.exists_append (same : SameColumns line line') {a b : Text} (begins : line = a ++ b)
    (within : byteLength a ≤ 72) : ∃ b', line' = a ++ b' := by
  subst begins
  exact append_of_take_encode_eq within same.columns

/-- A line in fixed format has a sequence area and an indicator. -/
theorem IsCard.exists_parts (card : IsCard line) :
    ∃ sequence indicator rest, line = sequence ++ indicator :: rest ∧ byteLength sequence = 6 ∧
      isFixed sequence indicator = true := by
  have fixed := card.fixed
  unfold Layout.ofLine at fixed
  split at fixed
  · rename_i sequence indicator rest cut
    obtain ⟨parts, six⟩ := append_of_splitAtByte? cut
    split at fixed
    · rename_i allowed
      exact ⟨sequence, indicator, rest, parts, six, allowed⟩
    · cases fixed
  · cases fixed

/-- A card whose indicator is wider than a column is not read. -/
theorem codeArea_wide {sequence rest : Text} {indicator : Char} (six : byteLength sequence = 6)
    (fixed : isFixed sequence indicator = true) (wide : indicator.utf8Size ≠ 1) :
    codeArea (sequence ++ indicator :: rest) = some [] := by
  have star : indicator ≠ '*' := by rintro rfl; exact wide rfl
  have slash : indicator ≠ '/' := by rintro rfl; exact wide rfl
  rw [codeArea, ofLine_fixed rest six fixed]
  simp [programArea, wide, star, slash, trimStart, beforeComment]

/-- A card whose indicator is one column has a start and what follows it. -/
theorem IsCard.exists_card (card : IsCard line) {sequence rest : Text} {indicator : Char}
    (parts : line = sequence ++ indicator :: rest) (six : byteLength sequence = 6)
    (fixed : isFixed sequence indicator = true) (narrow : indicator.utf8Size = 1) :
    ∃ (s : CardStart) (tail : Text), line = s.card tail ∧ s.Ends tail := by
  have long := card.long
  rw [parts, byteLength_append, byteLength_cons, six, narrow] at long
  obtain ⟨columns, c, tail, rfl, within, past⟩ := exists_append_of_lt_byteLength (n := 65) (t := rest) (by omega)
  let s : CardStart := ⟨sequence, indicator, columns, six, fixed, narrow, within⟩
  exact ⟨s, c :: tail, by rw [parts, CardStart.card, CardStart.text, List.append_assoc, List.cons_append],
    c, tail, rfl, past⟩

/-- Cards with the same columns have the same start. -/
theorem SameColumns.exists_card {s : CardStart} {tail : Text} (same : SameColumns (s.card tail) line')
    (ends : s.Ends tail) : ∃ tail', line' = s.card tail' ∧ s.Ends tail' := by
  have text := s.byteLength_text
  have within := s.within
  obtain ⟨tail', rfl⟩ := same.exists_append (a := s.text) (b := tail) rfl (by omega)
  have long := same.card'.long
  rw [byteLength_append] at long
  cases tail' with
  | nil =>
    rw [byteLength_nil] at long
    omega
  | cons d rest' =>
    refine ⟨d :: rest', rfl, d, rest', rfl, Nat.lt_of_not_le fun inside => ?_⟩
    -- a character that ends within the columns would stand in both cards
    have inColumns : byteLength (s.text ++ [d]) ≤ 72 := by
      rw [byteLength_append, byteLength_cons, byteLength_nil]
      omega
    obtain ⟨rest, begins⟩ := same.symm.exists_append (List.append_cons s.text d rest') inColumns
    obtain ⟨c, tail, rfl, past⟩ := ends
    obtain ⟨rfl, -⟩ : c = d ∧ tail = rest := by simpa [CardStart.card] using begins
    omega

/-- If the indicator of one of the cards is one column, that of the other one is. -/
theorem SameColumns.narrow (same : SameColumns line line') {sequence sequence' rest rest' : Text}
    {indicator indicator' : Char} (parts : line = sequence ++ indicator :: rest) (six : byteLength sequence = 6)
    (fixed : isFixed sequence indicator = true) (parts' : line' = sequence' ++ indicator' :: rest')
    (six' : byteLength sequence' = 6) (fixed' : isFixed sequence' indicator' = true)
    (narrow : indicator'.utf8Size = 1) : indicator.utf8Size = 1 := by
  have within : byteLength (sequence' ++ [indicator']) ≤ 72 := by
    rw [byteLength_append, byteLength_cons, byteLength_nil, six', narrow]
    omega
  obtain ⟨rest, begins⟩ := same.symm.exists_append (by rw [parts', List.append_cons]) within
  rw [List.append_assoc] at begins
  have layout := ofLine_fixed rest six' fixed'
  rw [← List.singleton_append, ← begins, parts, ofLine_fixed _ six fixed] at layout
  obtain ⟨-, rfl, -⟩ := Layout.fixed.inj layout
  exact narrow

/-- If a card does not leak, its columns decide what is read on it. -/
theorem SameColumns.codeArea_eq (same : SameColumns line line') (tight : ¬ Leaks line) :
    codeArea line' = codeArea line := by
  obtain ⟨sequence, indicator, rest, parts, six, fixed⟩ := same.card.exists_parts
  by_cases narrow : indicator.utf8Size = 1
  · obtain ⟨s, tail, rfl, ends⟩ := same.card.exists_card parts six fixed narrow
    obtain ⟨tail', rfl, ends'⟩ := same.exists_card ends
    exact s.codeArea_congr (fun isOpen => tight ⟨s, tail, rfl, ends, isOpen⟩) ends ends'
  · obtain ⟨sequence', indicator', rest', parts', six', fixed'⟩ := same.card'.exists_parts
    have wide : indicator'.utf8Size ≠ 1 := fun narrow' =>
      narrow (same.narrow parts six fixed parts' six' fixed' narrow')
    rw [parts, parts', codeArea_wide six fixed narrow, codeArea_wide six' fixed' wide]

/-- If it leaks, they do not. -/
theorem Leaks.exists_codeArea_ne (leaks : Leaks line) :
    ∃ other, SameColumns line other ∧ codeArea other ≠ codeArea line := by
  obtain ⟨s, tail, rfl, ⟨c, rest, rfl, past⟩, isOpen⟩ := leaks
  have same (rest' : Text) : SameColumns (s.card (c :: rest)) (s.card (c :: rest')) :=
    CardStart.sameColumns ⟨c, rest, rfl, past⟩ rest'
  by_cases read : codeArea (s.card [c]) = codeArea (s.card (c :: rest))
  · exact ⟨_, same ['X'], fun read' => s.codeArea_ne isOpen past (read'.trans read.symm)⟩
  · exact ⟨_, same [], read⟩

/-- A card with the end of a character at the end of column 72 does not leak. -/
theorem not_leaks_of_splitAtByte? (boundary : (splitAtByte? 72 line).isSome = true) : ¬ Leaks line := by
  rintro ⟨s, tail, rfl, ⟨c, rest, rfl, past⟩, isOpen⟩
  have short := isOpen.short
  have text := s.byteLength_text
  rw [CardStart.card, splitAtByte?_inside (by omega) (by omega)] at boundary
  cases boundary

end SameColumns

/-! ## Texts -/

/-- Only the program text of the lines matters. -/
theorem numberedCode_congr {lines lines' : List Text}
    (same : List.Forall₂ (fun line line' => codeArea line' = codeArea line) lines lines') (first : Nat) :
    numberedCode first lines' = numberedCode first lines := by
  induction same generalizing first with
  | nil => rfl
  | cons here rest ih => rw [numberedCode, numberedCode, code?, code?, here, ih]

/-- **What stands past column 72.**  The columns of a card decide what is read on it if and only if it does not leak;
and if texts differ only past column 72 of cards that do not, they have the same program. -/
theorem codeArea_columns_iff (path : Path) (text text' : Text) :
    (∀ line, IsCard line →
      ((∀ other, SameColumns line other → codeArea other = codeArea line) ↔ ¬ Leaks line)) ∧
    (List.Forall₂ (fun line line' => line' = line ∨ SameColumns line line' ∧ ¬ Leaks line) (lines text) (lines text') →
      Program.ofSource path text' = Program.ofSource path text) := by
  refine ⟨fun line _ => ⟨fun decided leaks => ?_, fun tight _ same => same.codeArea_eq tight⟩, fun columns => ?_⟩
  · obtain ⟨other, same, read⟩ := leaks.exists_codeArea_ne
    exact read (decided other same)
  · have areas : List.Forall₂ (fun line line' => codeArea line' = codeArea line) (lines text) (lines text') := by
      refine columns.imp fun line line' same => ?_
      obtain rfl | ⟨same, tight⟩ := same
      · rfl
      · exact same.codeArea_eq tight
    have codes : codeLines text' = codeLines text := numberedCode_congr areas 1
    rw [Program.ofSource, Program.ofSource, scan, scan, codes]

/-- A card with this text from column 1 on, filled up with blanks to column 72. -/
def punched (code identification : Text) : Text :=
  code ++ List.replicate (72 - byteLength code) ' ' ++ identification

/-- Three cards of a deck. -/
def deck (identification : Text) : Text :=
  joinWith ['\n'] [punched "000100 PROCEDURE DIVISION.".toList identification,
    punched "000200 FIRST-PARA.".toList identification,
    punched "000300     DISPLAY 'ÉTÉ'.".toList identification]

/-- The cards can bear a name, or a statement behind a wide character. -/
theorem codeArea_columns_iff_deck :
    let path : Path := ⟨"/src/deck.cbl".toList⟩
    let named := deck "PAYROLL1".toList
    let busy := deck "é CALL 'NEXT'.".toList
    List.Forall₂ SameColumns (lines named) (lines busy) ∧
      (∀ line ∈ lines named, ∀ other, SameColumns line other → codeArea other = codeArea line) ∧
      Program.ofSource path busy = Program.ofSource path named ∧
      (Program.ofSource path busy).paragraphs = [⟨"FIRST-PARA".toList, none, 2, 3, []⟩] := by
  intro path named busy
  have cards : ∀ line ∈ lines named, IsCard line ∧ (splitAtByte? 72 line).isSome = true := by decide +kernel
  have columns : List.Forall₂ (fun line line' => SameColumns line line' ∧ (splitAtByte? 72 line).isSome = true)
      (lines named) (lines busy) := by decide +kernel
  obtain ⟨areas, programs⟩ := codeArea_columns_iff path named busy
  refine ⟨columns.imp fun _ _ same => same.1, fun line member => ?_, ?_, by decide +kernel⟩
  · obtain ⟨card, boundary⟩ := cards line member
    exact (areas line card).2 (not_leaks_of_splitAtByte? boundary)
  · refine programs (columns.imp fun line line' same => ?_)
    exact .inr ⟨same.1, not_leaks_of_splitAtByte? same.2⟩

/-- A card on which a wide character begins in column 72. -/
def torn (behind : Text) : Text :=
  "000300     CONTINUE.".toList ++ List.replicate 51 ' ' ++ 'é' :: behind

/-- A deck with that card. -/
def tornDeck (behind : Text) : Text :=
  joinWith ['\n'] ["000100 PROCEDURE DIVISION.".toList, "000200 FIRST-PARA.".toList, torn behind]

/-- Where a wide character lies across the end of column 72, a CALL behind it is taken for a statement. -/
theorem ofSource_tornDeck :
    let path : Path := ⟨"/src/CARD.cbl".toList⟩
    let plain := torn []
    let busy := torn "  CALL 'LEAK'.".toList
    SameColumns plain busy ∧ codeArea plain ≠ codeArea busy ∧
      List.Forall₂ (fun line line' => line' = line ∨ SameColumns line line') (lines (tornDeck []))
        (lines (tornDeck "  CALL 'LEAK'.".toList)) ∧
      (Program.ofSource path (tornDeck [])).paragraphs = [⟨"FIRST-PARA".toList, none, 2, 3, []⟩] ∧
      (Program.ofSource path (tornDeck "  CALL 'LEAK'.".toList)).paragraphs =
        [⟨"FIRST-PARA".toList, none, 2, 3, [⟨.call, "LEAK".toList, none, 3, false⟩]⟩] := by
  decide +kernel

end CobolAtlas.Source
