/-
# CobolAtlas.Proofs.Source.Alike -- texts that differ inside literals

Two texts are alike if they are the same but for what stands inside literals that are closed on their line, and what
stands there is as long in both, is blank in both or in neither, and holds no comment mark where it differs
(`Alike`).  Alike texts have the same mask, and they stay alike when blanks are cut at their ends or a comment is cut
off (`Alike.trim`, `Alike.beforeComment`).

So they transfer control alike: the search for a CALL stops at a literal of the one where it stops at the same literal
of the other, and only the name in it may differ (`Alike.callTarget?_veil`).
-/
import CobolAtlas.Proofs.Source.Line
import CobolAtlas.Proofs.Source.Masking
import CobolAtlas.Source.Statement

namespace CobolAtlas.Source

set_option autoImplicit false

open Text

/-- A text that may stand between two quotes `q`. -/
structure IsContent (q : Char) (t : Text) : Prop where
  noQuote : q ∉ t
  oneLine : '\n' ∉ t

/-- The one content may stand for the other: it is as long in bytes, blank if the other is, and where they differ
neither holds a comment mark. -/
structure Exchange (u u' : Text) : Prop where
  length : byteLength u = byteLength u'
  blank : (trim u).isEmpty = (trim u').isEmpty
  mark : u = u' ∨ ¬ "*>".toList <:+: u ∧ ¬ "*>".toList <:+: u'

/-- The texts are the same but for the contents of closed literals. -/
inductive Alike : Text → Text → Prop
  | same (t : Text) : Alike t t
  | char {t t' : Text} (c : Char) (plain : Name.isQuote c = false) (rest : Alike t t') : Alike (c :: t) (c :: t')
  | literal {q : Char} {u u' t t' : Text} (quote : Name.isQuote q = true) (content : IsContent q u)
      (content' : IsContent q u') (exchange : Exchange u u') (rest : Alike t t') :
      Alike (q :: (u ++ q :: t)) (q :: (u' ++ q :: t'))

namespace Alike

variable {t t' : Text}

theorem mask_eq (alike : Alike t t') : Literal.mask t = Literal.mask t' := by
  induction alike with
  | same t => rfl
  | char c plain rest ih => rw [Literal.mask_cons plain, Literal.mask_cons plain, ih]
  | literal quote content content' exchange rest ih =>
    rw [Literal.mask, Literal.mask, Literal.maskFrom_none_quote quote, Literal.maskFrom_none_quote quote,
      Literal.maskFrom_some_append content.noQuote content.oneLine,
      Literal.maskFrom_some_append content'.noQuote content'.oneLine, exchange.length]
    exact congrArg _ (congrArg _ (congrArg _ ih))

theorem byteLength_eq (alike : Alike t t') : byteLength t = byteLength t' := by
  rw [← Literal.byteLength_maskFrom none t, ← Literal.byteLength_maskFrom none t']
  exact congrArg byteLength alike.mask_eq

theorem head?_eq (alike : Alike t t') : t.head? = t'.head? := by
  rw [← Literal.head?_mask, alike.mask_eq, Literal.head?_mask]

theorem isEmpty_eq (alike : Alike t t') : t.isEmpty = t'.isEmpty := by
  cases alike <;> rfl

theorem getLast?_eq (alike : Alike t t') : t.getLast? = t'.getLast? := by
  induction alike with
  | same t => rfl
  | char c plain rest ih => rw [List.getLast?_cons, List.getLast?_cons, ih]
  | literal quote content content' exchange rest ih =>
    simp only [List.getLast?_cons, List.getLast?_append, ih]
    simp

/-- The same text without quotes may stand before both. -/
theorem prepend {before : Text} (plain : ∀ c ∈ before, Name.isQuote c = false) (alike : Alike t t') :
    Alike (before ++ t) (before ++ t') := by
  induction before with
  | nil => exact alike
  | cons c before ih =>
    exact .char c (plain c List.mem_cons_self) (ih fun d member => plain d (List.mem_cons_of_mem c member))

/-! ## Cutting -/

theorem dropWhile {p : Char → Bool} (spares : Literal.Spares p) (alike : Alike t t') :
    Alike (t.dropWhile p) (t'.dropWhile p) := by
  induction alike with
  | same t => exact .same _
  | char c plain rest ih =>
    rw [List.dropWhile_cons, List.dropWhile_cons]
    split
    · exact ih
    · exact .char c plain rest
  | literal quote content content' exchange rest ih =>
    have stops := spares _ quote
    rw [List.dropWhile_cons_of_neg (by simp [stops]), List.dropWhile_cons_of_neg (by simp [stops])]
    exact .literal quote content content' exchange rest

theorem dropEndWhile {p : Char → Bool} (spares : Literal.Spares p) (alike : Alike t t') :
    Alike (dropEndWhile p t) (dropEndWhile p t') := by
  induction alike with
  | same t => exact .same _
  | char c plain rest ih =>
    rw [dropEndWhile_cons_eq, dropEndWhile_cons_eq, ih.isEmpty_eq]
    split
    · exact .same []
    · exact .char c plain ih
  | @literal q u u' t t' quote content content' exchange rest ih =>
    have keeps := spares q quote
    rw [dropEndWhile_cons keeps, dropEndWhile_cons keeps, dropEndWhile_append_cons keeps,
      dropEndWhile_append_cons keeps]
    exact .literal quote content content' exchange ih

theorem trim (alike : Alike t t') : Alike (trim t) (trim t') :=
  (alike.dropWhile Literal.spares_isBlank).dropEndWhile Literal.spares_isBlank

/-- A content without comment mark is no comment, nor is the quote that closes it. -/
theorem beforeComment_literal {q : Char} (quote : Name.isQuote q = true) {u : Text} (noMark : ¬ "*>".toList <:+: u)
    (t : Text) : beforeComment (u ++ q :: t) = u ++ q :: beforeComment t := by
  have notStar : q ≠ '*' := by rintro rfl; cases quote
  have noEnd : q ≠ '>' := by rintro rfl; cases quote
  rw [beforeComment_append (beforeComment_eq_self noMark) fun _ => by simpa using noEnd, beforeComment_cons,
    if_neg fun mark => notStar mark.1]

theorem beforeComment (alike : Alike t t') : Alike (beforeComment t) (beforeComment t') := by
  induction alike with
  | same t => exact .same _
  | char c plain rest ih =>
    rw [beforeComment_cons, beforeComment_cons, rest.head?_eq]
    split
    · exact .same []
    · exact .char c plain ih
  | @literal q u u' t t' quote content content' exchange rest ih =>
    have notStar : q ≠ '*' := by rintro rfl; cases quote
    rw [beforeComment_cons, beforeComment_cons, if_neg fun mark => notStar mark.1, if_neg fun mark => notStar mark.1]
    -- a content that is the same in both may hold a mark, and then the comment begins at the same place
    by_cases mark : "*>".toList <:+: u
    · obtain rfl : u = u' := exchange.mark.resolve_right fun neither => neither.1 mark
      rw [beforeComment_append_of_mark mark, beforeComment_append_of_mark mark]
      exact .same _
    · have mark' : ¬ "*>".toList <:+: u' := by
        rcases exchange.mark with rfl | neither
        · exact mark
        · exact neither.2
      rw [beforeComment_literal quote mark, beforeComment_literal quote mark']
      exact .literal quote content content' exchange ih

/-! ## Reading -/

theorem afterKeyword? {k : Text} (letters : isKeyword k = true) (alike : Alike t t') {rest : Text}
    (passed : afterKeyword? k t = some rest) : ∃ rest', Text.afterKeyword? k t' = some rest' ∧ Alike rest rest' := by
  induction k generalizing t t' with
  | nil =>
    cases passed
    exact ⟨t', rfl, alike⟩
  | cons a k ih =>
    simp only [isKeyword, List.all_cons, Bool.and_eq_true] at letters
    cases alike with
    | same t => exact ⟨rest, passed, .same rest⟩
    | char c plain tail =>
      rw [Text.afterKeyword?] at passed ⊢
      split at passed
      · rename_i stands
        rw [if_pos stands]
        exact ih letters.2 tail passed
      · cases passed
    | @literal q u u' t t' quote content content' exchange tail =>
      rw [Text.afterKeyword?] at passed
      split at passed
      · rename_i stands
        have name := isNameCharacter_of_letterStandsFor letters.1 stands
        rw [Literal.spares_isNameCharacter q quote] at name
        cases name
      · cases passed

theorem skipBlanks? (alike : Alike t t') {rest : Text} (passed : skipBlanks? t = some rest) :
    ∃ rest', Text.skipBlanks? t' = some rest' ∧ Alike rest rest' := by
  cases alike with
  | same t => exact ⟨rest, passed, .same rest⟩
  | char c plain tail =>
    rw [Text.skipBlanks?] at passed ⊢
    split at passed
    · rename_i blank
      cases passed
      rw [if_pos blank]
      exact ⟨_, rfl, tail.dropWhile Literal.spares_isBlank⟩
    · cases passed
  | @literal q u u' t t' quote content content' exchange tail =>
    rw [Text.skipBlanks?, if_neg (by simp [Literal.spares_isBlank q quote])] at passed
    cases passed

end Alike

/-! ## The operand of a CALL -/

/-- The text of `length` bytes that starts `toEnd` bytes before the end. -/
def textBeforeEnd (toEnd length : Nat) (t : Text) : Text := byteSlice (byteLength t - toEnd) length t

theorem splitAtByte?_append_add (before t : Text) (n : Nat) :
    splitAtByte? (byteLength before + n) (before ++ t) =
      (splitAtByte? n t).map fun parts => (before ++ parts.1, parts.2) := by
  induction before with
  | nil =>
    rw [byteLength_nil, Nat.zero_add]
    exact (Option.map_id_fun' ▸ rfl : splitAtByte? n t = (splitAtByte? n t).map fun parts => parts)
  | cons c before ih =>
    have positive := c.utf8Size_pos
    obtain ⟨m, total⟩ : ∃ m, byteLength (c :: before) + n = m + 1 :=
      ⟨byteLength (c :: before) + n - 1, by rw [byteLength_cons]; omega⟩
    have enough : c.utf8Size ≤ m + 1 := by rw [byteLength_cons] at total; omega
    have less : m + 1 - c.utf8Size = byteLength before + n := by rw [byteLength_cons] at total; omega
    rw [total, List.cons_append, splitAtByte?, if_pos enough, less, ih, Option.map_map]
    rfl

/-- What stands in front does not matter. -/
theorem textBeforeEnd_append {toEnd : Nat} {t : Text} (within : toEnd ≤ byteLength t) (length : Nat) (before : Text) :
    textBeforeEnd toEnd length (before ++ t) = textBeforeEnd toEnd length t := by
  have start : byteLength (before ++ t) - toEnd = byteLength before + (byteLength t - toEnd) := by
    rw [byteLength_append]
    omega
  rw [textBeforeEnd, textBeforeEnd, start, byteSlice, byteSlice, splitAtByte?_append_add]
  cases splitAtByte? (byteLength t - toEnd) t <;> rfl

theorem textBeforeEnd_append_self (content rest : Text) :
    textBeforeEnd (byteLength (content ++ rest)) (byteLength content) (content ++ rest) = content := by
  rw [textBeforeEnd, Nat.sub_self]
  exact byteSlice_append [] content rest

/-- A CALL of a literal: blanks and a quote follow the verb, and the literal is closed. -/
theorem callOperand?_literal {t : Text} {toEnd length : Nat} (found : callOperand? t = some (.literal toEnd length)) :
    ∃ rest q body, afterKeyword? "CALL".toList t = some rest ∧ skipBlanks? rest = some (q :: body) ∧
      Name.isQuote q = true ∧ toEnd = byteLength body ∧ length = byteLength (body.takeWhile (· != q)) ∧ q ∈ body := by
  simp only [callOperand?, Option.bind_eq_bind, Option.bind_eq_some_iff] at found
  obtain ⟨rest, passed, operand, skipped, found⟩ := found
  split at found
  · cases found
  · rename_i q body
    split at found
    · rename_i quote
      split at found
      · cases found
      · rename_i shut
        cases found
        exact ⟨rest, q, body, passed, skipped, quote, rfl, rfl, by simp at shut; exact shut.2⟩
    · split at found <;> cases found

theorem suffix_of_skipBlanks? {t rest : Text} (passed : skipBlanks? t = some rest) : rest <:+ t := by
  cases t with
  | nil => cases passed
  | cons c t =>
    rw [skipBlanks?] at passed
    split at passed
    · cases passed
      exact (List.dropWhile_suffix _).trans (List.suffix_cons c t)
    · cases passed

theorem toEnd_le_of_callOperand? {t : Text} {toEnd length : Nat}
    (found : callOperand? t = some (.literal toEnd length)) : toEnd ≤ byteLength t := by
  obtain ⟨rest, q, body, passed, skipped, -, rfl, -⟩ := callOperand?_literal found
  obtain ⟨before, rfl⟩ := ((List.suffix_cons q body).trans (suffix_of_skipBlanks? skipped)).trans
    (suffix_of_afterKeyword? passed)
  rw [byteLength_append]
  exact Nat.le_add_left _ _

theorem toEnd_le_of_searchFrom {t : Text} {atStart : Bool} {toEnd length : Nat}
    (found : searchFrom callOperand? atStart t = some (.literal toEnd length)) : toEnd ≤ byteLength t := by
  obtain ⟨before, rest, rfl, -, here, -⟩ := (searchFrom_eq_some_iff _ _ _ _).1 found
  rw [byteLength_append]
  exact Nat.le_trans (toEnd_le_of_callOperand? here) (Nat.le_add_left _ _)

theorem toEnd_le_of_masked {t : Text} {atStart : Bool} {toEnd length : Nat}
    (found : searchFrom callOperand? atStart (Literal.mask t) = some (.literal toEnd length)) :
    toEnd ≤ byteLength t := by
  rw [← Literal.byteLength_maskFrom none t]
  exact toEnd_le_of_searchFrom found

/-- The mask of a literal: what a CALL takes for the bytes of its content are these bytes. -/
theorem textBeforeEnd_literal {q : Char} (quote : Name.isQuote q = true) {u : Text} (content : IsContent q u) (t : Text)
    {body : Text} (masked : Literal.mask (q :: (u ++ q :: t)) = q :: body) :
    textBeforeEnd (byteLength body) (byteLength (body.takeWhile (· != q))) (q :: (u ++ q :: t)) = u := by
  rw [Literal.mask, Literal.maskFrom_none_quote quote, Literal.maskFrom_some_append content.noQuote content.oneLine]
    at masked
  obtain ⟨-, rfl⟩ := List.cons.inj masked
  have shown : (List.replicate (byteLength u) ' ' ++ q :: Literal.maskFrom none t).takeWhile (· != q) =
      List.replicate (byteLength u) ' ' :=
    takeWhile_ne_append (Literal.notMem_blanks quote _) _
  have toEnd : byteLength (List.replicate (byteLength u) ' ' ++ q :: Literal.maskFrom none t) =
      byteLength (u ++ q :: t) := by
    rw [byteLength_append, byteLength_append, Literal.byteLength_replicate_blank, byteLength_cons, byteLength_cons,
      Literal.byteLength_maskFrom]
  rw [shown, toEnd, Literal.byteLength_replicate_blank]
  exact (textBeforeEnd_append (Nat.le_refl _) _ [q]).trans (textBeforeEnd_append_self u (q :: t))

/-- The target without the name in a literal. -/
def CallTarget.veil (target : CallTarget) : CallTarget := if target.dynamic then target else { target with program := [] }

namespace Alike

variable {t t' : Text} {toEnd length : Nat}

/-- A literal that a CALL names at the start of the text is blank in both texts or in neither. -/
theorem blank_of_callOperand? (alike : Alike t t')
    (found : callOperand? (Literal.mask t) = some (.literal toEnd length)) :
    (Text.trim (textBeforeEnd toEnd length t)).isEmpty = (Text.trim (textBeforeEnd toEnd length t')).isEmpty := by
  have letters : isKeyword "CALL".toList = true := by decide
  obtain ⟨rest, q, body, passed, skipped, quote, rfl, rfl, -⟩ := callOperand?_literal found
  rw [afterKeyword?_mask t letters, Option.map_eq_some_iff] at passed
  obtain ⟨rest, passed, rfl⟩ := passed
  rw [skipBlanks?_mask, Option.map_eq_some_iff] at skipped
  obtain ⟨operand, skipped, masked⟩ := skipped
  obtain ⟨rest', passed', restAlike⟩ := alike.afterKeyword? letters passed
  obtain ⟨operand', skipped', operandAlike⟩ := restAlike.skipBlanks? skipped
  obtain ⟨before, rfl⟩ := (suffix_of_skipBlanks? skipped).trans (suffix_of_afterKeyword? passed)
  obtain ⟨before', rfl⟩ := (suffix_of_skipBlanks? skipped').trans (suffix_of_afterKeyword? passed')
  have within : byteLength body ≤ byteLength operand := by
    rw [← Literal.byteLength_maskFrom none operand]
    show _ ≤ byteLength (Literal.mask operand)
    rw [masked, byteLength_cons]
    exact Nat.le_add_left _ _
  rw [textBeforeEnd_append within, textBeforeEnd_append (operandAlike.byteLength_eq ▸ within)]
  have masked' := operandAlike.mask_eq.symm.trans masked
  cases operandAlike with
  | same t => rfl
  | char c plain tail =>
    rw [Literal.mask_cons plain] at masked
    rw [(List.cons.inj masked).1, quote] at plain
    cases plain
  | literal opens content content' exchange tail =>
    obtain rfl := (List.cons.inj masked).1
    rw [textBeforeEnd_literal quote content _ masked, textBeforeEnd_literal quote content' _ masked']
    exact exchange.blank

/-- No CALL begins at a character that is no `C`. -/
theorem callOperand?_eq_none {c : Char} (other : letterStandsFor 'C' c = false) (rest : Text) :
    callOperand? (c :: rest) = none := by
  have verb : "CALL".toList = 'C' :: "ALL".toList := rfl
  rw [callOperand?, verb, Text.afterKeyword?, other]
  rfl

/-- Neither the quotes of a masked literal nor the blanks between them begin a CALL. -/
theorem callOperand?_masked_literal {q : Char} (quote : Name.isQuote q = true) (n : Nat) :
    ∀ c ∈ q :: (List.replicate n ' ' ++ [q]), ∀ rest, callOperand? (c :: rest) = none := by
  intro c member
  have noVerb : letterStandsFor 'C' q = false :=
    Literal.spares_of_quotes (p := letterStandsFor 'C') (by decide) (by decide) q quote
  refine callOperand?_eq_none ?_
  rcases List.mem_cons.1 member with rfl | inside
  · exact noVerb
  · rcases List.mem_append.1 inside with blank | closing
    · rw [List.eq_of_mem_replicate blank]
      decide
    · rw [List.mem_singleton.1 closing]
      exact noVerb

/-- A literal that the first CALL names is blank in both texts or in neither. -/
theorem blank_of_searchFrom (alike : Alike t t') {atStart : Bool}
    (found : searchFrom callOperand? atStart (Literal.mask t) = some (.literal toEnd length)) :
    (Text.trim (textBeforeEnd toEnd length t)).isEmpty = (Text.trim (textBeforeEnd toEnd length t')).isEmpty := by
  induction alike generalizing atStart with
  | same t => rfl
  | @char t t' c plain rest ih =>
    rw [Literal.mask_cons plain, searchFrom] at found
    split at found
    · rename_i operand here
      have isHere : callOperand? (Literal.mask (c :: t)) = some (.literal toEnd length) := by
        rw [Literal.mask_cons plain, ← found, ← here]
        cases atStart with
        | true => rfl
        | false => cases here
      exact (Alike.char c plain rest).blank_of_callOperand? isHere
    · have within := toEnd_le_of_masked found
      have shifted := textBeforeEnd_append within length [c]
      have shifted' := textBeforeEnd_append (rest.byteLength_eq ▸ within) length [c]
      rw [List.singleton_append] at shifted shifted'
      rw [shifted, shifted']
      exact ih found
  | @literal q u u' t t' quote content content' exchange rest ih =>
    -- no CALL begins inside the literal, so the search goes on behind it
    have masked : Literal.mask (q :: (u ++ q :: t)) =
        (q :: (List.replicate (byteLength u) ' ' ++ [q])) ++ Literal.mask t := by
      rw [Literal.mask, Literal.maskFrom_none_quote quote,
        Literal.maskFrom_some_append content.noQuote content.oneLine]
      simp [Literal.mask]
    rw [masked, searchFrom_append callOperand? (callOperand?_masked_literal quote _)] at found
    have within := toEnd_le_of_masked found
    have shifted := textBeforeEnd_append within length (q :: (u ++ [q]))
    have shifted' := textBeforeEnd_append (rest.byteLength_eq ▸ within) length (q :: (u' ++ [q]))
    rw [List.cons_append, List.append_assoc, List.singleton_append] at shifted shifted'
    rw [shifted, shifted']
    exact ih found

/-! ## Transfers of control -/

theorem performRange?_eq (alike : Alike t t') : performRange? t = performRange? t' := by
  rw [performRange?, alike.mask_eq, performRange?]

theorem goToTarget?_eq (alike : Alike t t') : goToTarget? t = goToTarget? t' := by
  rw [goToTarget?, alike.mask_eq, goToTarget?]

/-- The first CALLs are alike: by the same data name, or both by a literal. -/
theorem callTarget?_veil (alike : Alike t t') :
    (callTarget? t).map CallTarget.veil = (callTarget? t').map CallTarget.veil := by
  have same : search callOperand? (Literal.mask t') = search callOperand? (Literal.mask t) := by rw [alike.mask_eq]
  rw [callTarget?, callTarget?, same]
  cases found : search callOperand? (Literal.mask t) with
  | none => rfl
  | some operand =>
    cases operand with
    | dataName name => rfl
    | literal toEnd length =>
      have blank := alike.blank_of_searchFrom found
      simp only [textBeforeEnd] at blank
      simp only [blank]
      split <;> rfl

end Alike

end CobolAtlas.Source
