/-
# CobolAtlas.Text.Keyword -- keywords and names where they start

Recognisers of COBOL text work on what remains of a text and take the leftmost place that fits.

* `afterKeyword?` passes a keyword in any letter case.  Letters are compared by simple case folding, so
  the long s stands for `S` and the Kelvin sign for `K`.
* `name?` passes a maximal run of name characters.
* `searchFrom` tries a recogniser where a word can start: at the start of the text and after every
  character that cannot stand in a name.  `searchFrom_eq_some_iff` says what the leftmost place is.
-/
import CobolAtlas.Text.Blank
import CobolAtlas.Text.WordCharacter

namespace CobolAtlas.Text

set_option autoImplicit false

/-- Does the upper-case keyword letter `k` stand for `c`? -/
def letterStandsFor (k c : Char) : Bool :=
  c.toUpper == k || (k == 'S' && c == 'ſ') || (k == 'K' && c.toNat == 0x212A)

/-- Is `c` an ASCII letter or digit, or folded to one? -/
def isLetterOrDigit (c : Char) : Bool :=
  c.isAlphanum || c == 'ſ' || c.toNat == 0x212A

/-- The text after a leading keyword, given in upper case. -/
def afterKeyword? : Text → Text → Option Text
  | [], t => some t
  | _ :: _, [] => none
  | k :: keyword, c :: t => if letterStandsFor k c then afterKeyword? keyword t else none

/-- A leading name, as long as possible, and the text after it. -/
def name? (t : Text) : Option (Text × Text) :=
  match t.takeWhile isNameCharacter with
  | [] => none
  | name => some (name, t.dropWhile isNameCharacter)

/-- A blank run of at least one character and the text after it. -/
def gap? (t : Text) : Option (Text × Text) :=
  match t.takeWhile isBlank with
  | [] => none
  | gap => some (gap, t.dropWhile isBlank)

section Search

variable {α : Type}

/-- The answer of `recognise` at the first place where a word can start and it has one; `atStart` tells
whether the text itself is such a place. -/
def searchFrom (recognise : Text → Option α) : Bool → Text → Option α
  | atStart, [] => if atStart then recognise [] else none
  | atStart, c :: t =>
      match if atStart then recognise (c :: t) else none with
      | some found => some found
      | none => searchFrom recognise (!isNameCharacter c) t

/-- The answer of `recognise` at the leftmost word start where it has one. -/
def search (recognise : Text → Option α) (t : Text) : Option α := searchFrom recognise true t

/-- Can a word start after `before`? -/
def endsOpen (atStart : Bool) (before : Text) : Bool :=
  match before.getLast? with
  | none => atStart
  | some c => !isNameCharacter c

theorem endsOpen_cons (atStart : Bool) (c : Char) (before : Text) :
    endsOpen atStart (c :: before) = endsOpen (!isNameCharacter c) before := by
  cases before with
  | nil => rfl
  | cons d before => simp [endsOpen, List.getLast?_eq_some_getLast]

/-- At no word start before the end of `before` is there an answer. -/
def NoneWithin (recognise : Text → Option α) (atStart : Bool) (before t : Text) : Prop :=
  ∀ before' rest', t = before' ++ rest' → before'.length < before.length →
    endsOpen atStart before' = true → recognise rest' = none

theorem noneWithin_nil (recognise : Text → Option α) (atStart : Bool) (t : Text) : NoneWithin recognise atStart [] t :=
  fun _ _ _ shorter => absurd shorter (Nat.not_lt_zero _)

/-- The text itself is the first of the places, and the others are those of its tail. -/
theorem noneWithin_cons_iff {recognise : Text → Option α} {atStart : Bool} {c : Char} {before t : Text} :
    NoneWithin recognise atStart (c :: before) (c :: t) ↔
      (atStart = true → recognise (c :: t) = none) ∧ NoneWithin recognise (!isNameCharacter c) before t := by
  constructor
  · intro none
    refine ⟨none [] (c :: t) rfl (Nat.zero_lt_succ _), fun before' rest' split shorter isOpen => ?_⟩
    exact none (c :: before') rest' (congrArg (c :: ·) split) (Nat.succ_lt_succ shorter) ((endsOpen_cons ..).trans isOpen)
  · rintro ⟨here, later⟩ before' rest' split shorter isOpen
    cases before' with
    | nil =>
      obtain rfl : c :: t = rest' := split
      exact here isOpen
    | cons d before' =>
      obtain ⟨rfl, tail⟩ := List.cons.inj split
      exact later before' rest' tail (Nat.lt_of_succ_lt_succ shorter) ((endsOpen_cons ..).symm.trans isOpen)

/-- The answer is the one at a word start before which no word start has an answer. -/
theorem searchFrom_eq_some_iff (recognise : Text → Option α) (atStart : Bool) (t : Text) (a : α) :
    searchFrom recognise atStart t = some a ↔
      ∃ before rest, t = before ++ rest ∧ endsOpen atStart before = true ∧ recognise rest = some a ∧
        NoneWithin recognise atStart before t := by
  induction t generalizing atStart with
  | nil =>
    constructor
    · intro found
      cases atStart with
      | false => cases found
      | true => exact ⟨[], [], rfl, rfl, found, noneWithin_nil _ _ _⟩
    · rintro ⟨before, rest, split, isOpen, found, -⟩
      obtain ⟨rfl, rfl⟩ := List.append_eq_nil_iff.1 split.symm
      obtain rfl : atStart = true := isOpen
      exact found
  | cons c t ih =>
    rw [searchFrom]
    cases here : (if atStart then recognise (c :: t) else none) with
    | some b =>
      have isOpen : atStart = true := by
        cases atStart with
        | false => cases here
        | true => rfl
      have found : recognise (c :: t) = some b := by rwa [if_pos isOpen] at here
      constructor
      · rintro ⟨⟩
        exact ⟨[], c :: t, rfl, isOpen, found, noneWithin_nil _ _ _⟩
      · rintro ⟨before, rest, split, -, found', none⟩
        cases before with
        | nil =>
          obtain rfl : c :: t = rest := split
          exact found.symm.trans found'
        | cons d before =>
          obtain ⟨rfl, rfl⟩ := List.cons.inj split
          rw [(noneWithin_cons_iff.1 none).1 isOpen] at found
          cases found
    | none =>
      have missed : atStart = true → recognise (c :: t) = none := fun isOpen => by rwa [if_pos isOpen] at here
      simp only
      rw [ih]
      constructor
      · rintro ⟨before, rest, rfl, isOpen, found, none⟩
        exact ⟨c :: before, rest, rfl, (endsOpen_cons ..).trans isOpen, found, noneWithin_cons_iff.2 ⟨missed, none⟩⟩
      · rintro ⟨before, rest, split, isOpen, found, none⟩
        cases before with
        | nil =>
          obtain rfl : c :: t = rest := split
          rw [missed isOpen] at found
          cases found
        | cons d before =>
          obtain ⟨rfl, rfl⟩ := List.cons.inj split
          exact ⟨before, rest, rfl, (endsOpen_cons ..).symm.trans isOpen, found, (noneWithin_cons_iff.1 none).2⟩

end Search

end CobolAtlas.Text
