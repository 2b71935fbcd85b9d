/-
# CobolAtlas.Proofs.Skeleton.Row -- transfers of control that share a line

A row is made of the pieces of any number of statements, one after the other, with a gap of blanks between two of
them (`row`).  What stands in front of a piece is the `lead`, and a search for a verb that the lead does not have goes
through it to the piece (`search_lead`); literals are masked, and so no verb (`Hidden`).  So the target that a row gives
for a verb is the target at its first statement of that verb (`callTarget?_lead`, `performRange?_lead`,
`goToTarget?_lead`), and what comes after that statement does not matter (`callTarget?_data`, `performRange?_one`, ...).
-/
import CobolAtlas.Proofs.Skeleton.Parts
import CobolAtlas.Proofs.Skeleton.Sentence
import CobolAtlas.Proofs.Source.Operands

namespace CobolAtlas.Skeleton

set_option autoImplicit false

open Text Source

/-! ## Gaps -/

/-- Blanks between two pieces of a line. -/
structure Gap where
  text : Text
  nonempty : text ≠ [] := by decide
  blanks : text.all isBlank = true := by decide
  oneLine : '\n' ∉ text := by decide

namespace Gap

/-- A gap of one blank. -/
def blank : Gap := ⟨[' '], by decide, by decide, by decide⟩

variable (g : Gap)

theorem isBlank_of_mem {c : Char} (member : c ∈ g.text) : isBlank c = true := List.all_eq_true.1 g.blanks c member

theorem isGap : IsGap g.text := ⟨g.nonempty, fun _ => g.isBlank_of_mem⟩

theorem stops : ∀ c ∈ g.text, isNameCharacter c = false := g.isGap.stops

theorem endsName_append (t : Text) : endsName (g.text ++ t) = true := g.isGap.endsName_append t

variable {t : Text}

/-- More than a period after the word makes no paragraph. -/
theorem paragraphName?_eq_none {w : Text} (word : IsWord w) (nonempty : w ≠ []) {c : Char} (notBlank : isBlank c = false)
    (notPeriod : c ≠ '.') : paragraphName? (w ++ (g.text ++ c :: t)) = none := by
  have name : name? (w ++ (g.text ++ c :: t)) = some (w, g.text ++ c :: t) :=
    name?_append nonempty word (g.endsName_append _)
  have left : trim (g.text ++ c :: t) = c :: dropEndWhile isBlank t := by
    rw [trim, trimStart, List.dropWhile_append_of_pos fun c => g.isBlank_of_mem,
      List.dropWhile_cons_of_neg (by rw [notBlank]; exact Bool.false_ne_true), trimEnd, dropEndWhile_cons notBlank]
  simp only [paragraphName?, name, Option.bind_eq_bind, Option.bind_some, left]
  exact if_neg fun same => notPeriod (List.cons.inj same).1

end Gap

/-! ## Rows -/

section Rows

variable (period : Bool)

/-- What follows a piece: gaps and pieces in turn, and the ending. -/
def trail : (gap : Nat → Gap) → List Text → Text
  | _, [] => ending period
  | gap, piece :: pieces => (gap 0).text ++ (piece ++ trail (fun k => gap (k + 1)) pieces)

/-- Pieces on one line, where `gap k` stands behind the piece number `k`. -/
def row (gap : Nat → Gap) : List Text → Text
  | [] => ending period
  | piece :: pieces => piece ++ trail period gap pieces

/-- Pieces with a gap behind each. -/
def lead : (gap : Nat → Gap) → List Text → Text
  | _, [] => []
  | gap, piece :: pieces => piece ++ ((gap 0).text ++ lead (fun k => gap (k + 1)) pieces)

/-- A row may be looked at from any of its pieces on. -/
theorem row_append (gap : Nat → Gap) (before : List Text) (piece : Text) (pieces : List Text) :
    ∃ later : Nat → Gap,
      row period gap (before ++ piece :: pieces) = lead gap before ++ row period later (piece :: pieces) := by
  induction before generalizing gap with
  | nil => exact ⟨gap, rfl⟩
  | cons first before ih =>
    obtain ⟨later, rest⟩ := ih fun k => gap (k + 1)
    refine ⟨later, ?_⟩
    have next : trail period gap (before ++ piece :: pieces) =
        (gap 0).text ++ row period (fun k => gap (k + 1)) (before ++ piece :: pieces) := by cases before <;> rfl
    rw [List.cons_append, row, next, rest, lead, List.append_assoc, List.append_assoc]

theorem endsName_trail (gap : Nat → Gap) (pieces : List Text) : endsName (trail period gap pieces) = true := by
  cases pieces with
  | nil => exact endsName_ending period
  | cons piece pieces => exact (gap 0).endsName_append _

end Rows

/-! ## Masks -/

theorem Gap.mask_append (g : Gap) (t : Text) : Literal.mask (g.text ++ t) = g.text ++ Literal.mask t :=
  mask_gap_append g.isGap t

/-! ## Verbs -/

/-- The three verbs that are searched for. -/
def searchedVerbs : List Text := ["CALL".toList, "PERFORM".toList, "GO".toList]

namespace Transfer

def verb : Transfer → Text
  | .callLiteral _ | .callData _ => "CALL".toList
  | .perform .. => "PERFORM".toList
  | .goTo _ => "GO".toList

/-- The words outside literals. -/
def shownWords : Transfer → List Text
  | .callLiteral _ => ["CALL".toList]
  | t => t.pieces

theorem verb_mem (t : Transfer) : t.verb ∈ searchedVerbs := by
  cases t with
  | callLiteral l => exact .head _
  | callData name => exact .head _
  | perform first notCount last => exact .tail _ (.head _)
  | goTo target => exact .tail _ (.tail _ (.head _))

/-- Beside the verb a statement has the two words between its operands, and user names. -/
theorem shownWords_cases (t : Transfer) {w : Text} (member : w ∈ t.shownWords) :
    w = t.verb ∨ w = "TO".toList ∨ w = "THRU".toList ∨ ∃ u : UserName, w = u.text := by
  cases t with
  | callLiteral l => exact .inl (List.mem_singleton.1 member)
  | callData name =>
    rcases List.mem_cons.1 member with rfl | rest
    · exact .inl rfl
    · exact .inr (.inr (.inr ⟨name, List.mem_singleton.1 rest⟩))
  | perform first notCount last =>
    cases last with
    | none =>
      rcases List.mem_cons.1 member with rfl | rest
      · exact .inl rfl
      · exact .inr (.inr (.inr ⟨first, List.mem_singleton.1 rest⟩))
    | some last =>
      rcases List.mem_cons.1 member with rfl | rest
      · exact .inl rfl
      · rcases List.mem_cons.1 rest with rfl | rest
        · exact .inr (.inr (.inr ⟨first, rfl⟩))
        · rcases List.mem_cons.1 rest with rfl | rest
          · exact .inr (.inr (.inl rfl))
          · exact .inr (.inr (.inr ⟨last, List.mem_singleton.1 rest⟩))
  | goTo target =>
    rcases List.mem_cons.1 member with rfl | rest
    · exact .inl rfl
    · rcases List.mem_cons.1 rest with rfl | rest
      · exact .inr (.inl rfl)
      · exact .inr (.inr (.inr ⟨target, List.mem_singleton.1 rest⟩))

theorem isWord_of_shown (t : Transfer) : ∀ w ∈ t.shownWords, IsWord w := by
  intro w member
  rcases t.shownWords_cases member with rfl | rfl | rfl | ⟨u, rfl⟩
  · have keywords : ∀ v ∈ searchedVerbs, isKeyword v = true := by decide
    exact isWord_of_isKeyword (keywords t.verb t.verb_mem)
  · exact isWord_of_isKeyword (by decide)
  · exact isWord_of_isKeyword (by decide)
  · exact u.isWord

theorem spells_nil {k : Text} (searched : k ∈ searchedVerbs) : spells k [] = false := by
  have each : ∀ k ∈ searchedVerbs, spells k [] = false := by decide
  exact each k searched

/-- A verb that is not the statement's own is spelled by none of the words outside literals. -/
theorem spells_of_shown (t : Transfer) {k : Text} (searched : k ∈ searchedVerbs) (other : k ≠ t.verb) :
    ∀ w ∈ t.shownWords, spells k w = false := by
  have apart : ∀ k ∈ searchedVerbs, ∀ v ∈ searchedVerbs, k ≠ v → spells k v = false := by decide
  have between : ∀ k ∈ searchedVerbs, spells k "TO".toList = false ∧ spells k "THRU".toList = false := by decide
  have reserved : ∀ k ∈ searchedVerbs, k ∈ reservedWords := by decide +kernel
  intro w shown
  rcases t.shownWords_cases shown with rfl | rfl | rfl | ⟨u, rfl⟩
  · exact apart k searched t.verb t.verb_mem other
  · exact (between k searched).1
  · exact (between k searched).2
  · exact u.spells_eq_false (reserved k searched)

end Transfer

/-! ## Searches through a row -/

/-- Does the recogniser fail at every word that is not the verb? -/
def Seeks {α : Type} (verb : Text) (recognise : Text → Option α) : Prop :=
  ∀ w rest, IsWord w → endsName rest = true → spells verb w = false → recognise (w ++ rest) = none

theorem seeks_of_verb {α : Type} {verb : Text} {f : Text → Option α} (keyword : isKeyword verb = true)
    (fails : ∀ c rest, isBlank c = false → f (c :: rest) = none) :
    Seeks verb fun text => (afterKeyword? verb text).bind f :=
  fun _ _ word ends other =>
    afterKeyword?_bind_eq_none (fun c rest name => fails c rest (isBlank_of_isNameCharacter name)) keyword word ends other

theorem seeks_callOperand? : Seeks "CALL".toList callOperand? := by
  refine seeks_of_verb (by decide) fun c rest notBlank => ?_
  simp only [skipBlanks?_eq_none notBlank, Option.bind_eq_bind, Option.bind_none]

theorem seeks_performWords? : Seeks "PERFORM".toList performWords? := by
  refine seeks_of_verb (by decide) fun c rest notBlank => ?_
  simp only [gap?_eq_none notBlank, Option.bind_eq_bind, Option.bind_none]

theorem seeks_goToWord? : Seeks "GO".toList goToWord? := by
  refine seeks_of_verb (by decide) fun c rest notBlank => ?_
  simp only [skipBlanks?_eq_none notBlank, Option.bind_eq_bind, Option.bind_none]

/-- What a mask shows of the piece: a word that is not the verb, and characters that stand in no name. -/
def Hidden (verb piece : Text) : Prop :=
  ∃ w stops, IsWord w ∧ spells verb w = false ∧ (∀ c ∈ stops, isNameCharacter c = false) ∧
    ∀ rest, Literal.mask (piece ++ rest) = w ++ (stops ++ Literal.mask rest)

theorem hidden_of_word {verb w : Text} (word : IsWord w) (other : spells verb w = false) : Hidden verb w :=
  ⟨w, [], word, other, fun _ member => absurd member List.not_mem_nil,
    Literal.maskFrom_none_append (Literal.spares_isNameCharacter.noQuote word)⟩

theorem QuotedLiteral.hidden (l : QuotedLiteral) {verb : Text} (searched : verb ∈ searchedVerbs) :
    Hidden verb l.quoted := by
  have notName : isNameCharacter l.quote = false := Literal.spares_isNameCharacter _ l.quotes
  refine ⟨[], l.quote :: (List.replicate (byteLength l.text) ' ' ++ [l.quote]), isWord_nil,
    Transfer.spells_nil searched, fun c member => ?_, fun rest => ?_⟩
  · rcases List.mem_cons.1 member with rfl | inside
    · exact notName
    · rcases List.mem_append.1 inside with blank | closing
      · rw [List.eq_of_mem_replicate blank]
        rfl
      · rw [List.mem_singleton.1 closing]
        exact notName
  · rw [l.mask_append]
    simp

/-- Under a mask a statement has no verb but its own. -/
theorem Transfer.hidden (t : Transfer) {verb : Text} (searched : verb ∈ searchedVerbs) (other : verb ≠ t.verb) :
    ∀ piece ∈ t.pieces, Hidden verb piece := by
  have shown : ∀ w ∈ t.shownWords, Hidden verb w := fun w member =>
    hidden_of_word (t.isWord_of_shown w member) (t.spells_of_shown searched other w member)
  cases t with
  | callLiteral l =>
    intro piece member
    rcases List.mem_cons.1 member with rfl | literal
    · exact shown _ (.head _)
    · rw [List.mem_singleton.1 literal]
      exact l.hidden searched
  | callData name => exact shown
  | perform first notCount last => exact shown
  | goTo target => exact shown

section Searches

variable {α : Type} {verb : Text} {recognise : Text → Option α}

theorem Seeks.search_nil (seeks : Seeks verb recognise) (searched : verb ∈ searchedVerbs) :
    search recognise [] = none := by
  rw [search_of_word recognise isWord_nil]
  exact seeks [] [] isWord_nil rfl (Transfer.spells_nil searched)

theorem Seeks.search_stops (seeks : Seeks verb recognise) (searched : verb ∈ searchedVerbs) {stops : Text}
    (stop : ∀ c ∈ stops, isNameCharacter c = false) (rest : Text) :
    search recognise (stops ++ rest) = search recognise rest := by
  induction stops with
  | nil => rfl
  | cons c stops ih =>
    have here : isNameCharacter c = false := stop c List.mem_cons_self
    have ends : endsName (c :: (stops ++ rest)) = true := by simp [endsName, here]
    have fails := seeks [] (c :: (stops ++ rest)) isWord_nil ends (Transfer.spells_nil searched)
    have next := search_word_cons recognise isWord_nil here (stops ++ rest)
    rw [fails, Option.none_or] at next
    exact next.trans (ih fun d member => stop d (List.mem_cons_of_mem c member))

/-- Another word is passed, and what ends it. -/
theorem Seeks.search_word (seeks : Seeks verb recognise) (searched : verb ∈ searchedVerbs) {w : Text}
    (word : IsWord w) (other : spells verb w = false) {stops : Text} (stop : ∀ c ∈ stops, isNameCharacter c = false)
    (rest : Text) (ends : stops = [] → rest = []) :
    search recognise (w ++ (stops ++ rest)) = search recognise rest := by
  cases stops with
  | nil =>
    rw [ends rfl, List.append_nil, List.append_nil, search_of_word recognise word]
    have fails := seeks w [] word rfl other
    rw [List.append_nil] at fails
    rw [fails, seeks.search_nil searched]
  | cons d stops =>
    have here : isNameCharacter d = false := stop d List.mem_cons_self
    have fails := seeks w (d :: (stops ++ rest)) word (by simp [endsName, here]) other
    rw [List.cons_append, search_word_cons recognise word here, fails, Option.none_or]
    exact seeks.search_stops searched (fun c member => stop c (List.mem_cons_of_mem d member)) rest

/-- A search goes through pieces that hide the verb. -/
theorem search_lead (seeks : Seeks verb recognise) (searched : verb ∈ searchedVerbs) {pieces : List Text}
    (hidden : ∀ piece ∈ pieces, Hidden verb piece) (gap : Nat → Gap) (rest : Text) :
    search recognise (Literal.mask (lead gap pieces ++ rest)) = search recognise (Literal.mask rest) := by
  induction pieces generalizing gap with
  | nil => rfl
  | cons piece pieces ih =>
    obtain ⟨w, stops, word, other, stop, shown⟩ := hidden piece List.mem_cons_self
    have gapStops : ∀ c ∈ stops ++ (gap 0).text, isNameCharacter c = false :=
      List.forall_mem_append.2 ⟨stop, (gap 0).stops⟩
    have nonempty : stops ++ (gap 0).text ≠ [] := List.append_ne_nil_of_right_ne_nil stops (gap 0).nonempty
    rw [lead, List.append_assoc, List.append_assoc, shown, (gap 0).mask_append, ← List.append_assoc stops,
      seeks.search_word searched word other gapStops _ (absurd · nonempty)]
    exact ih (fun other among => hidden other (List.mem_cons_of_mem piece among)) _

/-- Where all pieces hide the verb, nothing is found. -/
theorem search_row_eq_none (seeks : Seeks verb recognise) (searched : verb ∈ searchedVerbs) {pieces : List Text}
    (hidden : ∀ piece ∈ pieces, Hidden verb piece) (period : Bool) (gap : Nat → Gap) :
    search recognise (Literal.mask (row period gap pieces)) = none := by
  have atEnd : Literal.mask (ending period) = ending period := by cases period <;> rfl
  have stopsEnd : ∀ c ∈ ending period, isNameCharacter c = false := by
    intro c member
    rw [eq_period_of_mem_ending member]
    rfl
  rcases List.eq_nil_or_concat pieces with rfl | ⟨before, last, rfl⟩
  · have passed := seeks.search_stops searched stopsEnd []
    rw [List.append_nil, seeks.search_nil searched] at passed
    rw [row, atEnd, passed]
  · -- the last piece has the ending behind it in place of a gap, so it is passed by itself
    rw [List.concat_eq_append] at hidden ⊢
    obtain ⟨later, split⟩ := row_append period gap before last []
    obtain ⟨w, stops, word, other, stop, shown⟩ := hidden last (by simp)
    have stopsAll : ∀ c ∈ stops ++ ending period, isNameCharacter c = false :=
      List.forall_mem_append.2 ⟨stop, stopsEnd⟩
    have passed := seeks.search_word searched word other stopsAll [] fun _ => rfl
    rw [List.append_nil, seeks.search_nil searched] at passed
    rw [split, search_lead seeks searched fun piece among => hidden piece (List.mem_append_left _ among)]
    rw [row, trail, shown, atEnd, passed]

/-! ### Targets behind a lead -/

variable {pieces : List Text} (gap : Nat → Gap) (code : Text)

theorem callTarget?_lead (hidden : ∀ piece ∈ pieces, Hidden "CALL".toList piece) :
    callTarget? (lead gap pieces ++ code) = callTarget? code :=
  callTarget?_append_of_search (search_lead seeks_callOperand? (by decide) hidden gap code)

theorem performRange?_lead (hidden : ∀ piece ∈ pieces, Hidden "PERFORM".toList piece) :
    performRange? (lead gap pieces ++ code) = performRange? code := by
  rw [performRange?, search_lead seeks_performWords? (by decide) hidden, performRange?]

theorem goToTarget?_lead (hidden : ∀ piece ∈ pieces, Hidden "GO".toList piece) :
    goToTarget? (lead gap pieces ++ code) = goToTarget? code := by
  rw [goToTarget?, search_lead seeks_goToWord? (by decide) hidden, goToTarget?]

end Searches

/-! ## Targets at the start of a row -/

section Targets

variable (period : Bool) (gap : Nat → Gap) (u v : UserName) (pieces : List Text)

theorem callTarget?_data : callTarget? (row period gap ("CALL".toList :: u.text :: pieces)) = some ⟨u.text, true⟩ := by
  have start : ∀ c ∈ u.text.head?, isLetterOrDigit c = true := by
    obtain ⟨c, t, text, alphanum⟩ := u.exists_cons
    rw [text]
    rintro d ⟨⟩
    simp [isLetterOrDigit, alphanum]
  exact callTarget?_dataName (spells_self (by decide)) (gap 0).isGap u.text_ne_nil u.isWord start
    (endsName_trail period (fun k => gap (k + 1)) pieces)

theorem callTarget?_literal (l : QuotedLiteral) :
    callTarget? (row period gap ("CALL".toList :: l.quoted :: pieces)) = some ⟨l.text, false⟩ := by
  have trimmed : trim l.text = l.text := trim_eq_self l.head_notBlank l.last_notBlank
  have notBlank : trim l.text ≠ [] := by
    obtain ⟨c, t, text, -⟩ := exists_cons_of_head?_any l.starts
    rw [trimmed, text]
    exact List.cons_ne_nil c t
  have spelled : spells "CALL".toList "CALL".toList = true := spells_self (by decide)
  have target := callTarget?_content spelled (gap 0).isGap l.quotes ⟨l.noQuote, l.oneLine⟩ notBlank
    (trail period (fun k => gap (k + 1)) pieces)
  rw [trimmed] at target
  simpa only [row, trail, QuotedLiteral.quoted, List.cons_append, List.append_assoc, List.nil_append] using target

/-- A user name that is no count names a procedure. -/
theorem isProcedureName_text (notCount : u.text.all Char.isDigit = false) : isProcedureName u.text = true := by
  have noLoop : isOneOf loopWords u.text = false := u.isOneOf_eq_false fun w member => by
    simp only [reservedWords, List.mem_append, member, or_true, true_or]
  have noVerb : isOneOf statementVerbs u.text = false := u.isOneOf_eq_false fun w member => by
    simp only [reservedWords, List.mem_append, member, or_true, true_or]
  simp only [isProcedureName, noLoop, noVerb, notCount, Bool.not_false, Bool.and_self]

/-- The range of a PERFORM at the start of a row depends on the two words behind its procedure. -/
theorem performRange?_row (notCount : u.text.all Char.isDigit = false) :
    performRange? (row period gap ("PERFORM".toList :: u.text :: pieces)) =
      match nextName? (trail period (fun k => gap (k + 1)) pieces) with
      | none => some ⟨u.text, none⟩
      | some (second, rest) =>
          if isOneOf ["TIMES".toList] second then none
          else if isOneOf ["THRU".toList, "THROUGH".toList] second then some ⟨u.text, (nextName? rest).map (·.1)⟩
          else some ⟨u.text, none⟩ := by
  have passes : ¬ ('\n' ∈ (gap 0).text ∨ isProcedureName u.text = false) := by
    simp [(gap 0).oneLine, isProcedureName_text u notCount]
  have spelled : spells "PERFORM".toList "PERFORM".toList = true := spells_self (by decide)
  have range := performRange?_words spelled (gap 0).isGap u.text_ne_nil u.isWord
    (endsName_trail period (fun k => gap (k + 1)) pieces)
  rwa [if_neg passes] at range

/-- Nothing or another verb follows: the PERFORM runs one procedure. -/
theorem performRange?_one (notCount : u.text.all Char.isDigit = false) (verb : ∀ w ∈ pieces.head?, w ∈ searchedVerbs) :
    performRange? (row period gap ("PERFORM".toList :: u.text :: pieces)) = some ⟨u.text, none⟩ := by
  have verbs : ∀ w ∈ searchedVerbs, isKeyword w = true ∧ w ≠ [] ∧ isOneOf ["TIMES".toList] w = false ∧
      isOneOf ["THRU".toList, "THROUGH".toList] w = false := by decide
  rw [performRange?_row period gap u pieces notCount]
  cases pieces with
  | nil =>
    have nothing : nextName? (ending period) = none := by cases period <;> rfl
    rw [trail, nothing]
  | cons w pieces =>
    obtain ⟨keyword, nonempty, noCount, noThrough⟩ := verbs w (verb w rfl)
    rw [trail, nextName?_append (gap 1).isGap nonempty (isWord_of_isKeyword keyword) (endsName_trail _ _ pieces)]
    simp only [noCount, noThrough, Bool.false_eq_true, if_false]

theorem performRange?_through (notCount : u.text.all Char.isDigit = false) :
    performRange? (row period gap ("PERFORM".toList :: u.text :: "THRU".toList :: v.text :: pieces)) =
      some ⟨u.text, some v.text⟩ := by
  have noCount : isOneOf ["TIMES".toList] "THRU".toList = false := by decide
  have isThrough : isOneOf ["THRU".toList, "THROUGH".toList] "THRU".toList = true := by decide
  have through : IsWord "THRU".toList := isWord_of_isKeyword (by decide)
  rw [performRange?_row period gap u _ notCount, trail, nextName?_append (gap 1).isGap (by decide) through (endsName_trail _ _ _)]
  simp only [noCount, isThrough, Bool.false_eq_true, if_false, if_true]
  rw [trail, nextName?_append (gap 2).isGap v.text_ne_nil v.isWord (endsName_trail _ _ pieces), Option.map_some]

theorem goToTarget?_name :
    goToTarget? (row period gap ("GO".toList :: "TO".toList :: u.text :: pieces)) = some u.text := by
  have free : isOneOf ["DEPENDING".toList, "TO".toList] u.text = false := u.isOneOf_eq_false (by decide +kernel)
  have spelled : spells "GO".toList "GO".toList = true := spells_self (by decide)
  have isTo : spells "TO".toList "TO".toList = true := spells_self (by decide)
  have target := goToTarget?_of_word (goToWord?_to spelled (gap 0).isGap isTo (gap 1).isGap u.text_ne_nil u.isWord
    (endsName_trail period (fun k => gap (k + 1 + 1)) pieces))
  rwa [free, if_neg Bool.false_ne_true] at target

end Targets

end CobolAtlas.Skeleton
