/-
# CobolAtlas.Proofs.Text.Word -- words, keywords and searches

A word is a run of name characters.  The recognisers of COBOL text read words: a word that nothing
extends is read whole by `name?` (`name?_append`), and a keyword can only be passed at a word that spells
it or begins with it (`afterKeyword?_append`).  A search tries its recogniser at word starts alone, so
it goes through a text word by word (`search_word_cons`, `search_of_word`).

Facts about the characters of ASCII are settled once, over the 128 code points (`of_ascii`).
-/
import CobolAtlas.Text.CaseMapping
import CobolAtlas.Text.Keyword
import Mathlib.Data.List.TakeWhile

namespace CobolAtlas.Text

set_option autoImplicit false

/-! ## Characters -/

/-- What holds of the first 128 code points holds of the characters of ASCII. -/
theorem of_ascii {P : Char → Prop} (all : ∀ n < 128, P (Char.ofNat n)) {c : Char}
    (ascii : c.toNat < 128) : P c := by
  rw [← Char.ofNat_toNat c]
  exact all _ ascii

theorem toNat_lt_of_isAlphanum {c : Char} (h : c.isAlphanum = true) : c.toNat < 128 := by
  have bound : c.val ≤ 'z'.val := by
    rcases Bool.or_eq_true_iff.1 h with letter | digit
    · rcases Bool.or_eq_true_iff.1 letter with upper | lower
      · have limits : 'A'.val ≤ c.val ∧ c.val ≤ 'Z'.val := of_decide_eq_true upper
        exact UInt32.le_trans limits.2 (by decide)
      · exact of_decide_eq_true (Bool.and_eq_true_iff.1 lower).2
    · exact UInt32.le_trans (of_decide_eq_true (Bool.and_eq_true_iff.1 digit).2) (by decide)
  exact Nat.lt_of_le_of_lt (UInt32.le_iff_toNat_le.1 bound) (by decide)

theorem isAlphanum_of_isUpper {c : Char} (upper : c.isUpper = true) : c.isAlphanum = true :=
  Bool.or_eq_true_iff.2 (.inl (Bool.or_eq_true_iff.2 (.inl upper)))

theorem isAlphanum_of_isDigit {c : Char} (digit : c.isDigit = true) : c.isAlphanum = true := by
  rw [Char.isAlphanum, digit, Bool.or_true]

theorem toNat_lt_of_isDigit {c : Char} (digit : c.isDigit = true) : c.toNat < 128 :=
  toNat_lt_of_isAlphanum (isAlphanum_of_isDigit digit)

theorem ne_of_isAlphanum {c d : Char} (alphanum : c.isAlphanum = true) (other : d.isAlphanum = false) : c ≠ d := by
  rintro rfl
  rw [alphanum] at other
  cases other

theorem utf8Size_of_ascii {c : Char} (ascii : c.toNat < 128) : c.utf8Size = 1 :=
  of_ascii (P := fun c => c.utf8Size = 1) (by decide) ascii

theorem byteLength_of_ascii {t : Text} (ascii : ∀ c ∈ t, c.toNat < 128) : byteLength t = t.length := by
  induction t with
  | nil => rfl
  | cons c t ih =>
    have rest := ih fun d member => ascii d (List.mem_cons_of_mem c member)
    rw [byteLength_cons, utf8Size_of_ascii (ascii c List.mem_cons_self), rest, List.length_cons, Nat.add_comm]

theorem isDecimalDigit_of_isDigit {c : Char} (digit : c.isDigit = true) : isDecimalDigit c = true := by
  rw [isDecimalDigit, if_pos (toNat_lt_of_isDigit digit), digit]

/-- Letters and digits of ASCII are word characters. -/
theorem isWordCharacter_of_isAlphanum {c : Char} (h : c.isAlphanum = true) : isWordCharacter c = true := by
  simp [isWordCharacter, toNat_lt_of_isAlphanum h, h]

theorem isNameCharacter_of_isAlphanum {c : Char} (h : c.isAlphanum = true) : isNameCharacter c = true := by
  simp [isNameCharacter, isWordCharacter_of_isAlphanum h]

/-- The blanks are few enough to look at each. -/
theorem isNameCharacter_of_isBlank {c : Char} (blank : isBlank c = true) : isNameCharacter c = false := by
  have all : ∀ r ∈ blankRanges, ∀ k < r.2 - r.1 + 1, isNameCharacter (Char.ofNat (r.1 + k)) = false := by
    decide +kernel
  simp only [isBlank, inRanges, List.any_eq_true, Bool.and_eq_true, decide_eq_true_eq] at blank
  obtain ⟨r, member, low, high⟩ := blank
  have here := all r member (c.toNat - r.1) (by omega)
  rwa [Nat.add_sub_cancel' low, Char.ofNat_toNat] at here

theorem isBlank_of_isNameCharacter {c : Char} (name : isNameCharacter c = true) : isBlank c = false := by
  cases blank : isBlank c with
  | false => rfl
  | true => simp [isNameCharacter_of_isBlank blank] at name

theorem isBlank_of_isAlphanum {c : Char} (alphanum : c.isAlphanum = true) : isBlank c = false :=
  isBlank_of_isNameCharacter (isNameCharacter_of_isAlphanum alphanum)

/-! ## Words -/

/-- A run of name characters, perhaps empty. -/
def IsWord (w : Text) : Prop := ∀ c ∈ w, isNameCharacter c = true

instance (w : Text) : Decidable (IsWord w) := List.decidableBAll _ w

/-- Does no name character follow? -/
def endsName : Text → Bool
  | [] => true
  | c :: _ => !isNameCharacter c

theorem isWord_nil : IsWord [] := fun _ member => absurd member List.not_mem_nil

theorem IsWord.tail {c : Char} {w : Text} (word : IsWord (c :: w)) : IsWord w :=
  fun d member => word d (List.mem_cons_of_mem c member)

theorem IsWord.head {c : Char} {w : Text} (word : IsWord (c :: w)) : isNameCharacter c = true :=
  word c List.mem_cons_self

theorem takeWhile_eq_nil_of_endsName {rest : Text} (ends : endsName rest = true) :
    rest.takeWhile isNameCharacter = [] := by
  cases rest with
  | nil => rfl
  | cons d rest =>
    have stop : isNameCharacter d = false := by simpa [endsName] using ends
    simp [stop]

theorem dropWhile_eq_self_of_endsName {rest : Text} (ends : endsName rest = true) :
    rest.dropWhile isNameCharacter = rest := by
  cases rest with
  | nil => rfl
  | cons d rest =>
    have stop : isNameCharacter d = false := by simpa [endsName] using ends
    simp [stop]

/-- A word that nothing extends is read whole. -/
theorem name?_append {w rest : Text} (nonempty : w ≠ []) (word : IsWord w) (ends : endsName rest = true) :
    name? (w ++ rest) = some (w, rest) := by
  have name : (w ++ rest).takeWhile isNameCharacter = w := by
    rw [List.takeWhile_append_of_pos word, takeWhile_eq_nil_of_endsName ends, List.append_nil]
  have after : (w ++ rest).dropWhile isNameCharacter = rest := by
    rw [List.dropWhile_append_of_pos word, dropWhile_eq_self_of_endsName ends]
  rw [name?, name, after]
  cases w with
  | nil => exact absurd rfl nonempty
  | cons c w => rfl

/-- What is read as a name is a word at the start of the text. -/
theorem of_name? {t w rest : Text} (read : name? t = some (w, rest)) : t = w ++ rest ∧ w ≠ [] ∧ IsWord w := by
  have split : t.takeWhile isNameCharacter ++ t.dropWhile isNameCharacter = t := List.takeWhile_append_dropWhile
  have word : IsWord (t.takeWhile isNameCharacter) := fun c => List.mem_takeWhile_imp
  rw [name?] at read
  split at read
  · cases read
  · rename_i nonempty
    cases read
    exact ⟨split.symm, nonempty, word⟩

/-- A name is read as far as it goes. -/
theorem endsName_of_name? {t w rest : Text} (read : name? t = some (w, rest)) : endsName rest = true := by
  rw [name?] at read
  split at read
  · cases read
  · cases read
    cases left : t.dropWhile isNameCharacter with
    | nil => rfl
    | cons c rest =>
      have stops := List.head?_dropWhile_not isNameCharacter t
      rw [left] at stops
      simpa [endsName] using stops

theorem name?_eq_none {rest : Text} (ends : endsName rest = true) : name? rest = none := by
  rw [name?, takeWhile_eq_nil_of_endsName ends]

/-- What does not start with a blank is not passed. -/
theorem skipBlanks?_eq_none {c : Char} (notBlank : isBlank c = false) (t : Text) :
    skipBlanks? (c :: t) = none := by
  simp [skipBlanks?, notBlank]

theorem skipBlanks?_cons_cons {c : Char} (notBlank : isBlank c = false) (t : Text) :
    skipBlanks? (' ' :: c :: t) = some (c :: t) := by
  have blank : isBlank ' ' = true := rfl
  simp [skipBlanks?, blank, trimStart_cons_of_not_blank notBlank]

theorem gap?_eq_none {c : Char} (notBlank : isBlank c = false) (t : Text) : gap? (c :: t) = none := by
  simp [gap?, notBlank]

/-- The blank before a word is passed, and no more. -/
theorem skipBlanks?_word {w : Text} (nonempty : w ≠ []) (word : IsWord w) (rest : Text) :
    skipBlanks? (' ' :: (w ++ rest)) = some (w ++ rest) := by
  obtain ⟨c, w, rfl⟩ := List.exists_cons_of_ne_nil nonempty
  exact skipBlanks?_cons_cons (isBlank_of_isNameCharacter word.head) (w ++ rest)

/-! ## Gaps -/

/-- Blanks, at least one. -/
structure IsGap (g : Text) : Prop where
  nonempty : g ≠ []
  blank : ∀ c ∈ g, isBlank c = true

instance (g : Text) : Decidable (IsGap g) :=
  decidable_of_iff (g ≠ [] ∧ g.all isBlank = true)
    ⟨fun ⟨nonempty, blank⟩ => ⟨nonempty, List.all_eq_true.1 blank⟩,
      fun gap => ⟨gap.nonempty, List.all_eq_true.2 gap.blank⟩⟩

namespace IsGap

variable {g t : Text}

theorem stops (gap : IsGap g) : ∀ c ∈ g, isNameCharacter c = false :=
  fun c member => isNameCharacter_of_isBlank (gap.blank c member)

theorem endsName_append (gap : IsGap g) (t : Text) : endsName (g ++ t) = true := by
  obtain ⟨c, rest, rfl⟩ := List.exists_cons_of_ne_nil gap.nonempty
  simp [endsName, gap.stops c List.mem_cons_self]

variable (start : ∀ c ∈ t.head?, isBlank c = false)
include start

theorem takeWhile_append (gap : IsGap g) : (g ++ t).takeWhile isBlank = g := by
  have stop : t.takeWhile isBlank = [] := by
    cases t with
    | nil => rfl
    | cons c t => simp [start c rfl]
  rw [List.takeWhile_append_of_pos gap.blank, stop, List.append_nil]

theorem dropWhile_append (gap : IsGap g) : (g ++ t).dropWhile isBlank = t := by
  rw [List.dropWhile_append_of_pos gap.blank]
  cases t with
  | nil => rfl
  | cons c t => simp [start c rfl]

/-- A gap is passed whole. -/
theorem skipBlanks?_append (gap : IsGap g) : skipBlanks? (g ++ t) = some t := by
  have passed := gap.dropWhile_append start
  obtain ⟨c, rest, rfl⟩ := List.exists_cons_of_ne_nil gap.nonempty
  have blank : isBlank c = true := gap.blank c List.mem_cons_self
  rw [List.cons_append, List.dropWhile_cons_of_pos blank] at passed
  rw [List.cons_append, skipBlanks?, if_pos blank, trimStart, passed]

theorem gap?_append (gap : IsGap g) : gap? (g ++ t) = some (g, t) := by
  rw [gap?, gap.takeWhile_append start, gap.dropWhile_append start]
  cases g with
  | nil => exact absurd rfl gap.nonempty
  | cons c g => rfl

end IsGap

/-- What is skipped is a gap. -/
theorem exists_gap_of_skipBlanks? {t rest : Text} (passed : skipBlanks? t = some rest) :
    ∃ g, t = g ++ rest ∧ IsGap g := by
  cases t with
  | nil => cases passed
  | cons c t =>
    rw [skipBlanks?] at passed
    split at passed
    · rename_i blank
      cases passed
      have split : t.takeWhile isBlank ++ trimStart t = t := List.takeWhile_append_dropWhile
      refine ⟨c :: t.takeWhile isBlank, by rw [List.cons_append, split], List.cons_ne_nil _ _, ?_⟩
      exact List.forall_mem_cons.2 ⟨blank, fun d member => List.mem_takeWhile_imp member⟩
    · cases passed

/-! ## Keywords -/

/-- Capital letters of ASCII and hyphens. -/
def isKeyword (k : Text) : Bool := k.all fun a => a.isUpper || a == '-'

/-- Is the word the keyword, letter case aside? -/
def spells (k w : Text) : Bool := afterKeyword? k w == some []

theorem spells_iff {k w : Text} : spells k w = true ↔ afterKeyword? k w = some [] := beq_iff_eq

theorem toNat_lt_of_isKeyword {a : Char} (keyword : (a.isUpper || a == '-') = true) : a.toNat < 128 := by
  rcases Bool.or_eq_true_iff.1 keyword with upper | hyphen
  · exact toNat_lt_of_isAlphanum (isAlphanum_of_isUpper upper)
  · rw [beq_iff_eq.1 hyphen]; decide

theorem letterStandsFor_self {a : Char} (keyword : (a.isUpper || a == '-') = true) :
    letterStandsFor a a = true := by
  have ascii := toNat_lt_of_isKeyword keyword
  revert keyword
  exact of_ascii (P := fun a => (a.isUpper || a == '-') = true → letterStandsFor a a = true) (by decide) ascii

/-- No digit stands for a letter. -/
theorem letterStandsFor_digit {a c : Char} (letter : a.isUpper = true) (digit : c.isDigit = true) :
    letterStandsFor a c = false := by
  have ascii := toNat_lt_of_isDigit digit
  have same : c.toUpper = c := by
    revert digit
    exact of_ascii (P := fun c => c.isDigit = true → c.toUpper = c) (by decide) ascii
  have other : c ≠ a := by
    rintro rfl
    revert letter digit
    exact of_ascii (P := fun c => c.isDigit = true → c.isUpper = true → False) (by decide) ascii
  have notLong : c ≠ 'ſ' := by rintro rfl; cases digit
  have notKelvin : c.toNat ≠ 0x212A := by omega
  simp [letterStandsFor, same, other, notLong, notKelvin]

/-- Characters beyond ASCII have no capital letter of ASCII. -/
theorem toUpper_of_not_ascii {c : Char} (beyond : 128 ≤ c.toNat) : c.toUpper = c := by
  unfold Char.toUpper
  split
  · rename_i lower
    have bound : c.val.toNat ≤ 122 := UInt32.le_iff_toNat_le.1 lower.2
    exact absurd (Nat.le_trans beyond bound) (by decide)
  · rfl

/-- Only name characters stand for the letters of keywords. -/
theorem isNameCharacter_of_letterStandsFor {a c : Char} (keyword : (a.isUpper || a == '-') = true)
    (stands : letterStandsFor a c = true) : isNameCharacter c = true := by
  simp only [letterStandsFor, Bool.or_eq_true, Bool.and_eq_true, beq_iff_eq] at stands
  rcases stands with (same | ⟨-, rfl⟩) | ⟨-, kelvin⟩
  · rcases Nat.lt_or_ge c.toNat 128 with ascii | beyond
    · rw [← same] at keyword
      revert keyword
      exact of_ascii (P := fun c => (c.toUpper.isUpper || c.toUpper == '-') = true →
        isNameCharacter c = true) (by decide) ascii
    · rw [← same, toUpper_of_not_ascii beyond] at keyword
      exact absurd (toNat_lt_of_isKeyword keyword) (by omega)
  · decide +kernel
  · rw [← Char.ofNat_toNat c, kelvin]; decide +kernel

theorem isWord_of_isKeyword {k : Text} (keyword : isKeyword k = true) : IsWord k := by
  intro a member
  have letter := List.all_eq_true.1 keyword a member
  exact isNameCharacter_of_letterStandsFor letter (letterStandsFor_self letter)

/-- A keyword is passed within a word, or not at all. -/
theorem afterKeyword?_append {k w rest : Text} (keyword : isKeyword k = true)
    (ends : endsName rest = true) :
    afterKeyword? k (w ++ rest) = (afterKeyword? k w).map (· ++ rest) := by
  induction k generalizing w with
  | nil => rfl
  | cons a k ih =>
    simp only [isKeyword, List.all_cons, Bool.and_eq_true] at keyword
    cases w with
    | nil =>
      cases rest with
      | nil => rfl
      | cons d rest =>
        have differs : letterStandsFor a d = false := by
          rw [Bool.eq_false_iff]
          intro stands
          simp [endsName, isNameCharacter_of_letterStandsFor keyword.1 stands] at ends
        simp [afterKeyword?, differs]
    | cons c w =>
      simp only [List.cons_append, afterKeyword?]
      split
      · exact ih keyword.2
      · rfl

theorem isWord_of_spells {k w : Text} (keyword : isKeyword k = true) (spelled : spells k w = true) : IsWord w := by
  rw [spells_iff] at spelled
  induction k generalizing w with
  | nil =>
    cases spelled
    exact isWord_nil
  | cons a k ih =>
    simp only [isKeyword, List.all_cons, Bool.and_eq_true] at keyword
    cases w with
    | nil => cases spelled
    | cons c w =>
      rw [afterKeyword?] at spelled
      split at spelled
      · rename_i stands
        exact List.forall_mem_cons.2 ⟨isNameCharacter_of_letterStandsFor keyword.1 stands, ih keyword.2 spelled⟩
      · cases spelled

/-- A word that spells the keyword is passed, whatever follows. -/
theorem afterKeyword?_of_spells {k w : Text} (spelled : spells k w = true) (rest : Text) :
    afterKeyword? k (w ++ rest) = some rest := by
  rw [spells_iff] at spelled
  induction k generalizing w with
  | nil =>
    cases spelled
    rfl
  | cons a k ih =>
    cases w with
    | nil => cases spelled
    | cons c w =>
      simp only [List.cons_append, afterKeyword?] at spelled ⊢
      split at spelled
      · rename_i stands
        rw [if_pos stands]
        exact ih spelled
      · cases spelled

/-- What is passed as a keyword spells it. -/
theorem exists_spells_of_afterKeyword? {k t rest : Text} (passed : afterKeyword? k t = some rest) :
    ∃ w, t = w ++ rest ∧ spells k w = true := by
  induction k generalizing t with
  | nil =>
    cases passed
    exact ⟨[], rfl, rfl⟩
  | cons a k ih =>
    cases t with
    | nil => cases passed
    | cons c t =>
      rw [afterKeyword?] at passed
      split at passed
      · rename_i stands
        obtain ⟨w, rfl, spelled⟩ := ih passed
        refine ⟨c :: w, rfl, ?_⟩
        rw [spells_iff] at spelled ⊢
        rw [afterKeyword?, if_pos stands, spelled]
      · cases passed

theorem suffix_of_afterKeyword? {k t left : Text} (passed : afterKeyword? k t = some left) : left <:+ t := by
  induction k generalizing t with
  | nil => cases passed; exact List.suffix_rfl
  | cons a k ih =>
    cases t with
    | nil => cases passed
    | cons c t =>
      simp only [afterKeyword?] at passed
      split at passed
      · exact (ih passed).trans (List.suffix_cons c t)
      · cases passed

/-- What a keyword leaves of a word is a word. -/
theorem IsWord.of_afterKeyword? {k w left : Text} (word : IsWord w) (passed : afterKeyword? k w = some left) :
    IsWord left :=
  fun c member => word c ((suffix_of_afterKeyword? passed).subset member)

/-- What needs a character that ends the keyword has no answer at a word that is not the keyword. -/
theorem afterKeyword?_bind_eq_none {α : Type} {f : Text → Option α}
    (fails : ∀ c t, isNameCharacter c = true → f (c :: t) = none) {k w rest : Text}
    (keyword : isKeyword k = true) (word : IsWord w) (ends : endsName rest = true)
    (other : spells k w = false) : (afterKeyword? k (w ++ rest)).bind f = none := by
  rw [afterKeyword?_append keyword ends]
  cases passed : afterKeyword? k w with
  | none => rfl
  | some left =>
    cases left with
    | nil =>
      rw [spells_iff.2 passed] at other
      cases other
    | cons c left => exact fails c (left ++ rest) (word.of_afterKeyword? passed).head

/-- A keyword is passed where it stands. -/
theorem afterKeyword?_self_append {k : Text} (keyword : isKeyword k = true) (rest : Text) :
    afterKeyword? k (k ++ rest) = some rest := by
  induction k with
  | nil => rfl
  | cons a k ih =>
    simp only [isKeyword, List.all_cons, Bool.and_eq_true] at keyword
    simp only [List.cons_append, afterKeyword?, letterStandsFor_self keyword.1, if_true]
    exact ih keyword.2

theorem spells_self {k : Text} (keyword : isKeyword k = true) : spells k k = true := by
  have whole := afterKeyword?_self_append keyword []
  rwa [List.append_nil, ← spells_iff] at whole

/-- A keyword may be passed in two parts. -/
theorem afterKeyword?_keyword_append (k k' t : Text) :
    afterKeyword? (k ++ k') t = (afterKeyword? k t).bind (afterKeyword? k') := by
  induction k generalizing t with
  | nil => rfl
  | cons a k ih =>
    cases t with
    | nil => rfl
    | cons c t =>
      simp only [List.cons_append, afterKeyword?]
      split
      · exact ih t
      · rfl

/-- In ASCII the letter case is all that a keyword leaves open. -/
theorem upperAscii_of_afterKeyword? {k w left : Text} (ascii : ∀ c ∈ w, c.toNat < 128)
    (passed : afterKeyword? k w = some left) : upperAscii w = k ++ upperAscii left := by
  induction k generalizing w with
  | nil => cases passed; rfl
  | cons a k ih =>
    cases w with
    | nil => cases passed
    | cons c w =>
      simp only [afterKeyword?] at passed
      split at passed
      · rename_i stands
        have small : c.toNat < 128 := ascii c List.mem_cons_self
        have upper : c.toUpper = a := by
          simp only [letterStandsFor, Bool.or_eq_true, Bool.and_eq_true, beq_iff_eq] at stands
          rcases stands with (same | ⟨-, rfl⟩) | ⟨-, kelvin⟩
          · exact same
          · exact absurd small (by decide)
          · omega
        have after := ih (fun d member => ascii d (List.mem_cons_of_mem c member)) passed
        simp only [upperAscii] at after ⊢
        rw [List.map_cons, upper, after, List.cons_append]
      · cases passed

theorem upperAscii_of_spells {k w : Text} (ascii : ∀ c ∈ w, c.toNat < 128) (spelled : spells k w = true) :
    upperAscii w = k := by
  simpa [upperAscii] using upperAscii_of_afterKeyword? ascii (spells_iff.1 spelled)

/-- Beyond ASCII only the letters S and K have other spellings. -/
theorem ascii_of_spells {k w : Text} (keyword : isKeyword k = true) (noS : 'S' ∉ k) (noK : 'K' ∉ k)
    (spelled : spells k w = true) : ∀ c ∈ w, c.toNat < 128 := by
  rw [spells_iff] at spelled
  induction k generalizing w with
  | nil =>
    cases spelled
    exact fun c member => absurd member List.not_mem_nil
  | cons a k ih =>
    simp only [isKeyword, List.all_cons, Bool.and_eq_true] at keyword
    simp only [List.mem_cons, not_or] at noS noK
    cases w with
    | nil => cases spelled
    | cons c w =>
      rw [afterKeyword?] at spelled
      split at spelled
      · rename_i stands
        have upper : c.toUpper = a := by
          simpa [letterStandsFor, Ne.symm noS.1, Ne.symm noK.1] using stands
        have small : c.toNat < 128 := by
          by_contra beyond
          rw [← upper, toUpper_of_not_ascii (Nat.le_of_not_lt beyond)] at keyword
          exact beyond (toNat_lt_of_isKeyword keyword.1)
        exact List.forall_mem_cons.2 ⟨small, ih keyword.2 noS.2 noK.2 spelled⟩
      · cases spelled

/-! ## Searches -/

section Search

variable {α : Type} (recognise : Text → Option α)

/-- A search finds nothing where nothing is recognised at any word start. -/
theorem searchFrom_eq_none_iff (atStart : Bool) (t : Text) :
    searchFrom recognise atStart t = none ↔
      ∀ before rest, t = before ++ rest → endsOpen atStart before = true → recognise rest = none := by
  constructor
  · intro nothing before rest split isOpen
    induction before generalizing atStart t with
    | nil =>
      cases t <;> cases split <;> cases isOpen
      · simpa [searchFrom] using nothing
      · rw [searchFrom] at nothing
        split at nothing
        · cases nothing
        · rename_i here
          simpa using here
    | cons c before ih =>
      subst split
      rw [List.cons_append, searchFrom] at nothing
      split at nothing
      · cases nothing
      · exact ih _ _ nothing rfl (by rw [← endsOpen_cons atStart, isOpen])
  · intro fails
    cases found : searchFrom recognise atStart t with
    | none => rfl
    | some a =>
      obtain ⟨before, rest, split, isOpen, here, -⟩ := (searchFrom_eq_some_iff recognise atStart t a).1 found
      rw [fails before rest split isOpen] at here
      cases here

/-- A search passes a text in which nothing is recognised. -/
theorem searchFrom_append_of_fails {before t : Text} {atStart : Bool}
    (fails : ∀ start c rest, before = start ++ c :: rest → endsOpen atStart start = true →
      recognise (c :: (rest ++ t)) = none) :
    searchFrom recognise atStart (before ++ t) = searchFrom recognise (endsOpen atStart before) t := by
  induction before generalizing atStart with
  | nil => rfl
  | cons c before ih =>
    have here : (if atStart then recognise (c :: (before ++ t)) else none) = none := by
      cases atStart with
      | false => rfl
      | true => exact fails [] c before rfl rfl
    rw [List.cons_append, searchFrom, here, endsOpen_cons]
    refine ih fun start d rest split isOpen => fails (c :: start) d rest ?_ ?_
    · rw [split, List.cons_append]
    · rw [endsOpen_cons, isOpen]

theorem searchFrom_false_of_word {w : Text} (word : IsWord w) : searchFrom recognise false w = none := by
  induction w with
  | nil => rfl
  | cons c w ih => simpa [searchFrom, word.head] using ih word.tail

theorem searchFrom_false_word_cons {w : Text} (word : IsWord w) {d : Char}
    (stop : isNameCharacter d = false) (rest : Text) :
    searchFrom recognise false (w ++ d :: rest) = search recognise rest := by
  induction w with
  | nil => simp [searchFrom, search, stop]
  | cons c w ih => simpa [searchFrom, word.head] using ih word.tail

theorem search_of_word {w : Text} (word : IsWord w) : search recognise w = recognise w := by
  cases w with
  | nil => rfl
  | cons c w =>
    rw [search, searchFrom]
    cases found : recognise (c :: w) with
    | none => simpa [word.head] using searchFrom_false_of_word recognise word.tail
    | some a => simp

/-- A search goes on behind the character that ends the first word. -/
theorem search_word_cons {w : Text} (word : IsWord w) {d : Char} (stop : isNameCharacter d = false)
    (rest : Text) :
    search recognise (w ++ d :: rest) = (recognise (w ++ d :: rest)).or (search recognise rest) := by
  cases w with
  | nil =>
    rw [search, List.nil_append, searchFrom]
    cases found : recognise (d :: rest) with
    | none => simp [stop, search]
    | some a => simp
  | cons c w =>
    rw [search, List.cons_append, searchFrom]
    cases found : recognise (c :: (w ++ d :: rest)) with
    | none => simpa [word.head] using searchFrom_false_word_cons recognise word.tail stop rest
    | some a => simp

/-- A search passes characters that nothing it looks for begins with. -/
theorem searchFrom_append {before : Text} (fails : ∀ c ∈ before, ∀ rest, recognise (c :: rest) = none)
    (atStart : Bool) (t : Text) :
    searchFrom recognise atStart (before ++ t) = searchFrom recognise (endsOpen atStart before) t := by
  refine searchFrom_append_of_fails recognise fun start c rest split _ => fails c ?_ _
  rw [split]
  exact List.mem_append_right start List.mem_cons_self

/-- What is recognised at the start is found. -/
theorem search_eq_some {t : Text} {a : α} (found : recognise t = some a) : search recognise t = some a := by
  cases t with
  | nil => simpa [search, searchFrom] using found
  | cons c t => simp [search, searchFrom, found]

end Search

end CobolAtlas.Text
