/-
# CobolAtlas.Proofs.Source.Cleaning -- what cleaning a name leaves, and what it does not

Cleaning takes off blanks, periods at the end, blanks and quotes, each class once.  So what stands inside the quotes is
left as it is, blanks and periods included, and a period that stands before blanks and a period is left too.

A name is bare when nothing is left to clean (`IsBare`); these are the names that cleaning leaves alone
(`clean_eq_self_iff`).  `bare` takes off all at once.  Cleaning a name again and again ends there
(`exists_iterate_clean`), and a second cleaning does nothing exactly where the first one got there
(`clean_clean_iff`).
-/
import CobolAtlas.Proofs.Text.Ends
import CobolAtlas.Proofs.Text.Word
import CobolAtlas.Source.Name
import Mathlib.Data.List.Infix
import Mathlib.Logic.Function.Iterate

namespace CobolAtlas.Name

set_option autoImplicit false

open Text

/-- Is `c` taken off at both ends of a name? -/
def isWrap (c : Char) : Bool := isBlank c || isQuote c

/-- Is `c` taken off at the end of a name? -/
def isEnd (c : Char) : Bool := isWrap c || c == '.'

/-- There is nothing left to clean: no blank and no quote at either end, no period at the end. -/
structure IsBare (t : Text) : Prop where
  first : ∀ c ∈ t.head?, isWrap c = false
  last : ∀ c ∈ t.getLast?, isEnd c = false

/-- The name without all that is around it. -/
def bare (t : Text) : Text := dropEndWhile isEnd (t.dropWhile isWrap)

section

variable {t : Text} {c : Char}

theorem isWrap_eq_false_iff : isWrap c = false ↔ isBlank c = false ∧ isQuote c = false := by
  rw [isWrap, Bool.or_eq_false_iff]

theorem isEnd_eq_false_iff : isEnd c = false ↔ isWrap c = false ∧ (c == '.') = false := by
  rw [isEnd, Bool.or_eq_false_iff]

theorem isWrap_of_isBlank (blank : isBlank c = true) : isWrap c = true := by
  rw [isWrap, blank, Bool.true_or]

theorem isWrap_of_isQuote (quote : isQuote c = true) : isWrap c = true := by
  rw [isWrap, quote, Bool.or_true]

theorem isEnd_of_isWrap (wrap : isWrap c = true) : isEnd c = true := by
  rw [isEnd, wrap, Bool.true_or]

theorem isEnd_of_isNameCharacter (name : isNameCharacter c = true) : isEnd c = false := by
  have other {d : Char} (no : isNameCharacter d = false) : (c == d) = false := beq_false_of_ne (by
    rintro rfl
    exact absurd name (by rw [no]; exact Bool.false_ne_true))
  refine isEnd_eq_false_iff.2 ⟨isWrap_eq_false_iff.2 ⟨isBlank_of_isNameCharacter name, ?_⟩, other (by decide)⟩
  rw [isQuote, other (by decide), other (by decide), Bool.or_false]

/-! ## Bare names -/

theorem isBare_bare (t : Text) : IsBare (bare t) where
  first := head?_dropEndWhile_dropWhile isWrap isEnd t
  last := by
    obtain ⟨-, -, -, last⟩ := exists_dropEndWhile_append isEnd (t.dropWhile isWrap)
    exact last

theorem IsBare.bare_eq_self (isBare : IsBare t) : bare t = t := by
  rw [bare, dropWhile_eq_self isBare.first, dropEndWhile_eq_self isBare.last]

/-- There is nothing to clean in a word. -/
theorem isBare_of_isWord (word : IsWord t) : IsBare t where
  first c head := (isEnd_eq_false_iff.1 (isEnd_of_isNameCharacter (word c (List.mem_of_mem_head? head)))).1
  last c last := isEnd_of_isNameCharacter (word c (List.mem_of_getLast? last))

/-- What is around a text is no part of its bare name. -/
theorem bare_within {before after : Text} (wraps : ∀ c ∈ before, isWrap c = true) (ends : ∀ c ∈ after, isEnd c = true) :
    bare (before ++ (t ++ after)) = bare t := by
  rw [bare, List.dropWhile_append_of_pos wraps, List.dropWhile_append, bare]
  split
  · rename_i nothing
    have ends' : ∀ c ∈ after.dropWhile isWrap, isEnd c = true :=
      fun c member => ends c ((List.dropWhile_suffix isWrap).subset member)
    rw [List.isEmpty_iff.1 nothing, ← List.nil_append (after.dropWhile isWrap), dropEndWhile_append ends']
  · exact dropEndWhile_append ends

/-! ## The four cuts of a cleaning -/

theorem bare_dropBothWhile {p : Char → Bool} (wraps : ∀ c, p c = true → isWrap c = true) (t : Text) :
    bare (dropBothWhile p t) = bare t := by
  obtain ⟨before, after, whole, cut, cut', -⟩ := exists_dropBothWhile_append p t
  conv_rhs => rw [whole]
  exact (bare_within (fun c member => wraps c (cut c member))
    fun c member => isEnd_of_isWrap (wraps c (cut' c member))).symm

theorem bare_dropPeriods (t : Text) : bare (dropEndWhile (· == '.') t) = bare t := by
  obtain ⟨cut, whole, periods, -⟩ := exists_dropEndWhile_append (· == '.') t
  have ends : ∀ c ∈ cut, isEnd c = true := fun c member => by rw [isEnd, periods c member, Bool.or_true]
  conv_rhs => rw [whole]
  exact (@bare_within _ [] cut (fun c none => absurd none List.not_mem_nil) ends).symm

/-- Cleaning takes off nothing that is part of the bare name. -/
theorem bare_clean (t : Text) : bare (clean t) = bare t := by
  have trims (u : Text) : bare (trim u) = bare u := bare_dropBothWhile (fun _ => isWrap_of_isBlank) u
  rw [clean, bare_dropBothWhile fun _ => isWrap_of_isQuote, trims, bare_dropPeriods, trims]

theorem isInfix_dropBothWhile (p : Char → Bool) (t : Text) : dropBothWhile p t <:+: t := by
  obtain ⟨before, after, whole, -⟩ := exists_dropBothWhile_append p t
  exact ⟨before, after, by rw [List.append_assoc, ← whole]⟩

theorem isInfix_dropEndWhile (p : Char → Bool) (t : Text) : dropEndWhile p t <:+: t := by
  obtain ⟨cut, whole, -⟩ := exists_dropEndWhile_append p t
  exact List.IsPrefix.isInfix ⟨cut, whole.symm⟩

theorem isInfix_clean (t : Text) : clean t <:+: t :=
  (isInfix_dropBothWhile isQuote _).trans ((isInfix_dropBothWhile isBlank _).trans
    ((isInfix_dropEndWhile _ _).trans (isInfix_dropBothWhile isBlank t)))

/-- No quote is left at an end. -/
theorem isQuote_ends_clean (t : Text) :
    (∀ c ∈ (clean t).head?, isQuote c = false) ∧ ∀ c ∈ (clean t).getLast?, isQuote c = false := by
  obtain ⟨-, -, -, -, -, first, last⟩ :=
    exists_dropBothWhile_append isQuote (trim (dropEndWhile (· == '.') (trim t)))
  exact ⟨first, last⟩

theorem IsBare.clean_eq_self (isBare : IsBare t) : clean t = t := by
  have trimmed : trim t = t := trim_eq_self (fun c head => (isWrap_eq_false_iff.1 (isBare.first c head)).1)
    fun c last => (isWrap_eq_false_iff.1 (isEnd_eq_false_iff.1 (isBare.last c last)).1).1
  have noPeriod : dropEndWhile (· == '.') t = t :=
    dropEndWhile_eq_self fun c last => (isEnd_eq_false_iff.1 (isBare.last c last)).2
  rw [clean, trimmed, noPeriod, trimmed]
  exact dropBothWhile_eq_self (fun c head => (isWrap_eq_false_iff.1 (isBare.first c head)).2)
    fun c last => (isWrap_eq_false_iff.1 (isEnd_eq_false_iff.1 (isBare.last c last)).1).2

/-- Cleaning leaves alone what is bare, and nothing else. -/
theorem clean_eq_self_iff : clean t = t ↔ IsBare t := by
  refine ⟨fun kept => ?_, IsBare.clean_eq_self⟩
  -- what the last cut leaves is the whole text, so no cut took anything
  have trimmed : trim t = t := by
    refine antisymm (r := (· <:+: ·)) (isInfix_dropBothWhile isBlank t) ?_
    conv_lhs => rw [← kept]
    exact (isInfix_dropBothWhile isQuote _).trans ((isInfix_dropBothWhile isBlank _).trans (isInfix_dropEndWhile _ _))
  have noPeriod : dropEndWhile (· == '.') t = t := by
    refine antisymm (r := (· <:+: ·)) (isInfix_dropEndWhile _ t) ?_
    conv_lhs => rw [← kept, clean, trimmed]
    exact (isInfix_dropBothWhile isQuote _).trans (isInfix_dropBothWhile isBlank _)
  obtain ⟨-, -, -, -, -, noBlank, noBlank'⟩ := exists_dropBothWhile_append isBlank t
  obtain ⟨-, -, -, noPeriod'⟩ := exists_dropEndWhile_append (· == '.') t
  obtain ⟨noQuote, noQuote'⟩ := isQuote_ends_clean t
  rw [kept] at noQuote noQuote'
  rw [show dropBothWhile isBlank t = t from trimmed] at noBlank noBlank'
  rw [noPeriod] at noPeriod'
  exact ⟨fun c head => isWrap_eq_false_iff.2 ⟨noBlank c head, noQuote c head⟩, fun c last =>
    isEnd_eq_false_iff.2 ⟨isWrap_eq_false_iff.2 ⟨noBlank' c last, noQuote' c last⟩, noPeriod' c last⟩⟩

end

/-! ## Cleaning again -/

/-- A second cleaning does nothing exactly where the first one has left nothing to clean. -/
theorem clean_clean_iff (t : Text) : clean (clean t) = clean t ↔ clean t = bare t := by
  rw [clean_eq_self_iff]
  constructor
  · intro isBare
    rw [← bare_clean, isBare.bare_eq_self]
  · intro reached
    rw [reached]
    exact isBare_bare t

/-- Cleaning a name again and again ends at the bare name. -/
theorem exists_iterate_clean (t : Text) : ∃ n ≤ t.length, clean^[n] t = bare t := by
  induction size : t.length using Nat.strong_induction_on generalizing t with
  | _ length ih =>
    by_cases isBare : IsBare t
    · exact ⟨0, Nat.zero_le _, isBare.bare_eq_self.symm⟩
    · have shorter : (clean t).length < t.length :=
        Nat.lt_of_le_of_ne (isInfix_clean t).length_le fun same =>
          isBare (clean_eq_self_iff.1 ((isInfix_clean t).eq_of_length same))
      obtain ⟨n, few, ends⟩ := ih (clean t).length (size ▸ shorter) (clean t) rfl
      refine ⟨n + 1, by omega, ?_⟩
      rw [Function.iterate_succ_apply, ends, bare_clean]

/-! ## Names of sections -/

/-- No character is lost in upper case. -/
theorem upperCharacter_ne_nil (c : Char) : upperCharacter c ≠ [] := by
  rw [upperCharacter]
  split
  · exact List.cons_ne_nil _ _
  · split
    · rename_i image listed
      obtain ⟨before, after, table, -⟩ := List.lookup_eq_some_iff.1 listed
      have member : (c.toNat, image) ∈ upperSequences := table ▸ List.mem_append_right before List.mem_cons_self
      have images : ∀ pair ∈ upperSequences, pair.2 ≠ [] := by decide
      simpa using images _ member
    · split <;> exact List.cons_ne_nil _ _

theorem upper_eq_nil_iff {t : Text} : upper t = [] ↔ t = [] := by
  rw [upper, List.flatMap_eq_nil_iff]
  constructor
  · intro nothing
    exact List.eq_nil_iff_forall_not_mem.2 fun c member => upperCharacter_ne_nil c (nothing c member)
  · rintro rfl c member
    exact absurd member List.not_mem_nil

theorem upper_append (t u : Text) : upper (t ++ u) = upper t ++ upper u := List.flatMap_append

/-- A part of a text that is the whole in upper case is the whole. -/
theorem eq_of_upper_eq {part t : Text} (isPart : part <:+: t) (same : upper part = upper t) : part = t := by
  obtain ⟨before, after, rfl⟩ := isPart
  have lengths := congrArg List.length same
  rw [upper_append, upper_append, List.length_append, List.length_append] at lengths
  have noneBefore : before = [] := upper_eq_nil_iff.1 (List.eq_nil_of_length_eq_zero (by omega))
  have noneAfter : after = [] := upper_eq_nil_iff.1 (List.eq_nil_of_length_eq_zero (by omega))
  rw [noneBefore, noneAfter, List.nil_append, List.append_nil]

/-- In the name of a section a second cleaning shows as in any other name. -/
theorem ofSection_clean_iff (t : Text) : ofSection (clean t) = ofSection t ↔ clean (clean t) = clean t :=
  ⟨eq_of_upper_eq (isInfix_clean (clean t)), fun same => congrArg upper same⟩

end CobolAtlas.Name
