/-
# CobolAtlas.Proofs.Text.LetterCase -- what upper case leaves alone

Putting the letters of ASCII in upper case changes no character's class (`Caseless`): a blank stays a blank, a
character of a name stays one, and every character keeps its bytes.  So a text may be cut first and put in upper
case then, or the other way round (`takeWhile_upperAscii`, `trim_upperAscii`, `lines_upperAscii`, ...), and a
recogniser that does not look at letters but through keywords finds the same in both (`afterKeyword?_upperAscii`,
`name?_upperAscii`, `search_upperAscii`).
-/
import CobolAtlas.Proofs.Text.Word

namespace CobolAtlas.Text

set_option autoImplicit false

/-! ## Characters -/

section Characters

/-- What the letters of ASCII show in upper case, every character does. -/
theorem toUpper_congr {α : Type} (f : Char → α) (ascii : ∀ n < 128, f (Char.ofNat n).toUpper = f (Char.ofNat n))
    (c : Char) : f c.toUpper = f c := by
  rcases Nat.lt_or_ge c.toNat 128 with small | beyond
  · exact of_ascii (P := fun c => f c.toUpper = f c) ascii small
  · rw [toUpper_of_not_ascii beyond]

/-- Is the class the same in upper case? -/
def Caseless (p : Char → Bool) : Prop := ∀ c, p c.toUpper = p c

theorem Caseless.comp {p : Char → Bool} (caseless : Caseless p) : p ∘ Char.toUpper = p := funext caseless

theorem Caseless.not {p : Char → Bool} (caseless : Caseless p) : Caseless fun c => !p c :=
  fun c => congrArg Bool.not (caseless c)

theorem caseless_isBlank : Caseless isBlank := toUpper_congr isBlank (by decide +kernel)

theorem caseless_isWordCharacter : Caseless isWordCharacter := toUpper_congr isWordCharacter (by decide +kernel)

theorem caseless_isNameCharacter : Caseless isNameCharacter := toUpper_congr isNameCharacter (by decide +kernel)

theorem caseless_isDecimalDigit : Caseless isDecimalDigit := toUpper_congr isDecimalDigit (by decide +kernel)

theorem caseless_isDigit : Caseless Char.isDigit := toUpper_congr Char.isDigit (by decide)

theorem caseless_isLetterOrDigit : Caseless isLetterOrDigit := toUpper_congr isLetterOrDigit (by decide)

theorem toUpper_toUpper (c : Char) : c.toUpper.toUpper = c.toUpper := toUpper_congr Char.toUpper (by decide) c

theorem utf8Size_toUpper (c : Char) : c.toUpper.utf8Size = c.utf8Size := toUpper_congr Char.utf8Size (by decide) c

/-- Both cases of a letter stand for the same. -/
theorem caseless_letterStandsFor (k : Char) : Caseless (letterStandsFor k) := by
  intro c
  have longS : (c.toUpper == 'ſ') = (c == 'ſ') := toUpper_congr (· == 'ſ') (by decide) c
  have kelvin : (c.toUpper.toNat == 0x212A) = (c.toNat == 0x212A) :=
    toUpper_congr (fun c => c.toNat == 0x212A) (by decide) c
  simp only [letterStandsFor, toUpper_toUpper, longS, kelvin]

/-- A character is one that is no letter if it is so in upper case. -/
theorem toUpper_eq_iff {d : Char} (noLetter : d.isAlpha = false) (c : Char) : c.toUpper = d ↔ c = d := by
  have letters : c.toUpper = c ∨ c.isAlpha = true ∧ c.toUpper.isAlpha = true := by
    rcases Nat.lt_or_ge c.toNat 128 with small | beyond
    · exact of_ascii (P := fun c => c.toUpper = c ∨ c.isAlpha = true ∧ c.toUpper.isAlpha = true) (by decide) small
    · exact .inl (toUpper_of_not_ascii beyond)
  rcases letters with same | ⟨letter, upper⟩
  · rw [same]
  · constructor <;> rintro rfl
    · rw [noLetter] at upper
      cases upper
    · rw [noLetter] at letter
      cases letter

theorem caseless_beq {d : Char} (noLetter : d.isAlpha = false) : Caseless (· == d) := fun c => by
  rw [Bool.eq_iff_iff, beq_iff_eq, beq_iff_eq]
  exact toUpper_eq_iff noLetter c

end Characters

/-! ## Cutting -/

section Cutting

variable {p : Char → Bool} (t u : Text)

@[simp] theorem upperAscii_nil : upperAscii [] = [] := rfl

@[simp] theorem upperAscii_cons (c : Char) : upperAscii (c :: t) = c.toUpper :: upperAscii t := rfl

@[simp] theorem upperAscii_append : upperAscii (t ++ u) = upperAscii t ++ upperAscii u := List.map_append

@[simp] theorem upperAscii_eq_nil_iff : upperAscii t = [] ↔ t = [] := List.map_eq_nil_iff

@[simp] theorem isEmpty_upperAscii : (upperAscii t).isEmpty = t.isEmpty := List.isEmpty_map

theorem upperAscii_upperAscii : upperAscii (upperAscii t) = upperAscii t := by
  rw [upperAscii, upperAscii, List.map_map]
  exact List.map_congr_left fun c _ => toUpper_toUpper c

/-- Without letters there is nothing to change. -/
theorem upperAscii_eq_self {t : Text} (unchanged : ∀ c ∈ t, c.toUpper = c) : upperAscii t = t :=
  (List.map_congr_left unchanged).trans (List.map_id t)

theorem sameIgnoringCase_upperAscii (k : Text) : sameIgnoringCase k (upperAscii t) = sameIgnoringCase k t := by
  rw [sameIgnoringCase, upperAscii_upperAscii, sameIgnoringCase]

theorem sameIgnoringCase_of_spells {k w : Text} (ascii : ∀ c ∈ w, c.toNat < 128) (spelled : spells k w = true) :
    sameIgnoringCase k w = true := by
  rw [sameIgnoringCase, ← upperAscii_of_spells ascii spelled, upperAscii_upperAscii, beq_self_eq_true]

variable {t}

theorem takeWhile_upperAscii (caseless : Caseless p) : (upperAscii t).takeWhile p = upperAscii (t.takeWhile p) := by
  rw [upperAscii, List.takeWhile_map, caseless.comp, upperAscii]

theorem dropWhile_upperAscii (caseless : Caseless p) : (upperAscii t).dropWhile p = upperAscii (t.dropWhile p) := by
  rw [upperAscii, List.dropWhile_map, caseless.comp, upperAscii]

theorem all_upperAscii (caseless : Caseless p) : (upperAscii t).all p = t.all p := by
  rw [upperAscii, List.all_map, caseless.comp]

theorem contains_upperAscii {d : Char} (noLetter : d.isAlpha = false) : (upperAscii t).contains d = t.contains d := by
  rw [Bool.eq_iff_iff, List.contains_iff_mem, List.contains_iff_mem, upperAscii, List.mem_map]
  simp only [toUpper_eq_iff noLetter, exists_eq_right]

theorem dropEndWhile_upperAscii (caseless : Caseless p) :
    dropEndWhile p (upperAscii t) = upperAscii (dropEndWhile p t) := by
  have reversed : (upperAscii t).reverse = upperAscii t.reverse := List.map_reverse.symm
  rw [dropEndWhile, reversed, dropWhile_upperAscii caseless, dropEndWhile]
  exact List.map_reverse.symm

theorem dropBothWhile_upperAscii (caseless : Caseless p) :
    dropBothWhile p (upperAscii t) = upperAscii (dropBothWhile p t) := by
  rw [dropBothWhile, dropWhile_upperAscii caseless, dropEndWhile_upperAscii caseless, dropBothWhile]

variable (t)

theorem trimStart_upperAscii : trimStart (upperAscii t) = upperAscii (trimStart t) :=
  dropWhile_upperAscii caseless_isBlank

theorem trim_upperAscii : trim (upperAscii t) = upperAscii (trim t) := by
  rw [trim, trimStart_upperAscii, trimEnd, dropEndWhile_upperAscii caseless_isBlank, trim, trimEnd]

theorem byteLength_upperAscii : byteLength (upperAscii t) = byteLength t := by
  induction t with
  | nil => rfl
  | cons c t ih => simp [utf8Size_toUpper, ih]

theorem splitAtByte?_upperAscii (n : Nat) :
    splitAtByte? n (upperAscii t) = (splitAtByte? n t).map fun (before, after) => (upperAscii before, upperAscii after) := by
  induction t generalizing n with
  | nil => cases n <;> rfl
  | cons c t ih =>
    cases n with
    | zero => rfl
    | succ n =>
      rw [upperAscii_cons, splitAtByte?, splitAtByte?, utf8Size_toUpper, ih]
      split
      · rw [Option.map_map, Option.map_map]
        rfl
      · rfl

theorem byteSlice_upperAscii (start length : Nat) :
    byteSlice start length (upperAscii t) = upperAscii (byteSlice start length t) := by
  rw [byteSlice, byteSlice, splitAtByte?_upperAscii]
  cases splitAtByte? start t with
  | none => rfl
  | some parts =>
    simp only [Option.map_some, splitAtByte?_upperAscii]
    cases splitAtByte? length parts.2 <;> rfl

theorem getLast?_upperAscii_beq {d : Char} (noLetter : d.isAlpha = false) :
    ((upperAscii t).getLast? == some d) = (t.getLast? == some d) := by
  rw [upperAscii, List.getLast?_map]
  cases t.getLast? with
  | none => rfl
  | some c => exact caseless_beq noLetter c

theorem splitOn_upperAscii {separator : Char} (noLetter : separator.isAlpha = false) :
    splitOn separator (upperAscii t) = (splitOn separator t).map upperAscii := by
  induction t with
  | nil => rfl
  | cons c t ih =>
    have same : (c.toUpper == separator) = (c == separator) := caseless_beq noLetter c
    rw [upperAscii_cons, splitOn, splitOn, same, ih]
    split
    · rfl
    · cases splitOn separator t <;> rfl

theorem dropCarriageReturn_upperAscii : dropCarriageReturn (upperAscii t) = upperAscii (dropCarriageReturn t) := by
  have last := getLast?_upperAscii_beq t (d := '\r') rfl
  rw [Bool.eq_iff_iff, beq_iff_eq, beq_iff_eq] at last
  simp only [dropCarriageReturn, last]
  split
  · exact List.map_dropLast.symm
  · rfl

theorem lines_upperAscii : lines (upperAscii t) = (lines t).map upperAscii := by
  have pieces : splitOn '\n' (upperAscii t) = (splitOn '\n' t).map upperAscii := splitOn_upperAscii t rfl
  simp only [lines, pieces, List.map_append, ← List.map_dropLast, List.map_map, List.getLast?_map]
  congr 1
  · exact List.map_congr_left fun piece _ => dropCarriageReturn_upperAscii piece
  · cases (splitOn '\n' t).getLast? with
    | none => rfl
    | some piece => cases piece <;> rfl

end Cutting

/-! ## Recognisers -/

section Recognisers

variable (t : Text)

theorem skipBlanks?_upperAscii : skipBlanks? (upperAscii t) = (skipBlanks? t).map upperAscii := by
  cases t with
  | nil => rfl
  | cons c t =>
    rw [upperAscii_cons, skipBlanks?, skipBlanks?, caseless_isBlank, trimStart_upperAscii]
    split <;> rfl

/-- A keyword is passed in any letter case. -/
theorem afterKeyword?_upperAscii (keyword : Text) :
    afterKeyword? keyword (upperAscii t) = (afterKeyword? keyword t).map upperAscii := by
  induction keyword generalizing t with
  | nil => rfl
  | cons k keyword ih =>
    cases t with
    | nil => rfl
    | cons c t =>
      rw [upperAscii_cons, afterKeyword?, afterKeyword?, caseless_letterStandsFor, ih]
      split <;> rfl

theorem name?_upperAscii :
    name? (upperAscii t) = (name? t).map fun (name, rest) => (upperAscii name, upperAscii rest) := by
  rw [name?, name?, takeWhile_upperAscii caseless_isNameCharacter, dropWhile_upperAscii caseless_isNameCharacter]
  cases t.takeWhile isNameCharacter <;> rfl

theorem gap?_upperAscii :
    gap? (upperAscii t) = (gap? t).map fun (gap, rest) => (upperAscii gap, upperAscii rest) := by
  rw [gap?, gap?, takeWhile_upperAscii caseless_isBlank, dropWhile_upperAscii caseless_isBlank]
  cases t.takeWhile isBlank <;> rfl

/-- What a recogniser finds in upper case, a search finds in upper case. -/
theorem search_upperAscii {α : Type} {recognise : Text → Option α} {upper : α → α}
    (recognises : ∀ t, recognise (upperAscii t) = (recognise t).map upper) :
    search recognise (upperAscii t) = (search recognise t).map upper := by
  have places : ∀ atStart, searchFrom recognise atStart (upperAscii t) = (searchFrom recognise atStart t).map upper := by
    intro atStart
    induction t generalizing atStart with
    | nil => cases atStart <;> simp [searchFrom, ← recognises]
    | cons c t ih =>
      have here : (if atStart then recognise (upperAscii (c :: t)) else none) =
          (if atStart then recognise (c :: t) else none).map upper := by
        split
        · exact recognises (c :: t)
        · rfl
      rw [upperAscii_cons] at here ⊢
      rw [searchFrom, searchFrom, here, caseless_isNameCharacter, ih]
      cases (if atStart then recognise (c :: t) else none) <;> rfl
  exact places true

end Recognisers

end CobolAtlas.Text
