/-
# CobolAtlas.Proofs.Source.OpenLiteral -- which literal is open behind a text

A mask reads a text from left to right and knows which quote is open.  `openAfter` is that quote behind a text: none
where all literals of the text are closed, by their quote or by the end of their line.  So a mask can be taken in parts
(`maskFrom_append`), and what it shows other than blanks stands at the same place in the text
(`exists_of_maskFrom_eq_append`): outside literals, or as the end of one.
-/
import CobolAtlas.Proofs.Source.Masking

namespace CobolAtlas.Literal

set_option autoImplicit false

open Text

/-- The quote of the literal that is open behind the text, if `quote` was open before it. -/
def openAfter (quote : Option Char) (t : Text) : Option Char := t.foldl next quote

section Parts

variable (quote : Option Char) (c : Char) (t u : Text)

@[simp] theorem openAfter_nil : openAfter quote [] = quote := rfl

@[simp] theorem openAfter_cons : openAfter quote (c :: t) = openAfter (next quote c) t := rfl

@[simp] theorem openAfter_append : openAfter quote (t ++ u) = openAfter (openAfter quote t) u := List.foldl_append

@[simp] theorem maskFrom_append : maskFrom quote (t ++ u) = maskFrom quote t ++ maskFrom (openAfter quote t) u := by
  induction t generalizing quote with
  | nil => rfl
  | cons c t ih => simp [maskFrom, ih]

/-- A character is shown if it stands outside literals or ends one.  Else blanks stand for it, and the literal stays
open. -/
theorem shown_cases :
    shown quote c = [c] ∧ (quote = none ∨ quote = some c ∨ c = '\n') ∨
      shown quote c = List.replicate c.utf8Size ' ' ∧ next quote c = quote := by
  cases quote with
  | none => exact .inl ⟨rfl, .inl rfl⟩
  | some q =>
    by_cases ends : c == q || c == '\n'
    · refine .inl ⟨by simp [shown, ends], .inr ?_⟩
      rcases Bool.or_eq_true_iff.1 ends with same | newline
      · exact .inl (congrArg some (beq_iff_eq.1 same).symm)
      · exact .inr (beq_iff_eq.1 newline)
    · exact .inr ⟨by simp [shown, ends], by simp [next, ends]⟩

end Parts

variable {quote : Option Char} {c : Char} {t : Text}

/-- Without quotes nothing is opened. -/
theorem openAfter_of_noQuote (noQuote : ∀ c ∈ t, Name.isQuote c = false) : openAfter none t = none := by
  induction t with
  | nil => rfl
  | cons c t ih =>
    rw [openAfter_cons, next_none_plain (noQuote c List.mem_cons_self)]
    exact ih fun d member => noQuote d (List.mem_cons_of_mem c member)

/-- Where a literal is open, it was so from the start or its quote is shown. -/
theorem quote_of_openAfter {q : Char} (isOpen : openAfter quote t = some q) :
    quote = some q ∨ Name.isQuote q = true ∧ q ∈ maskFrom quote t := by
  induction t generalizing quote with
  | nil => exact .inl isOpen
  | cons c t ih =>
    rw [maskFrom]
    rcases ih isOpen with opened | ⟨isQuote, later⟩
    · cases quote with
      | none =>
        simp only [next] at opened
        split at opened
        · rename_i isQuote
          obtain rfl := Option.some.inj opened
          exact .inr ⟨isQuote, List.mem_append_left _ List.mem_cons_self⟩
        · cases opened
      | some p =>
        simp only [next] at opened
        split at opened
        · cases opened
        · exact .inl opened
    · exact .inr ⟨isQuote, List.mem_append_right _ later⟩

/-- A literal is closed by its quote or by the end of its line. -/
theorem openAfter_some {q : Char} (noQuote : q ∉ t) (oneLine : '\n' ∉ t) : openAfter (some q) t = some q := by
  induction t with
  | nil => rfl
  | cons c t ih =>
    simp only [List.mem_cons, not_or] at noQuote oneLine
    rw [openAfter_cons, (next_some (Ne.symm noQuote.1) (Ne.symm oneLine.1)).1]
    exact ih noQuote.2 oneLine.2

/-- Inside a literal a mask is blank. -/
theorem eq_blank_of_mem_maskFrom {q : Char} (noQuote : q ∉ t) (oneLine : '\n' ∉ t) :
    ∀ c ∈ maskFrom (some q) t, c = ' ' := by
  induction t with
  | nil => exact fun c member => absurd member List.not_mem_nil
  | cons c t ih =>
    simp only [List.mem_cons, not_or] at noQuote oneLine
    obtain ⟨stays, blank⟩ := next_some (Ne.symm noQuote.1) (Ne.symm oneLine.1)
    intro d member
    rw [maskFrom, stays, blank, List.mem_append] at member
    rcases member with here | later
    · exact List.eq_of_mem_replicate here
    · exact ih noQuote.2 oneLine.2 d later

/-- A mask shows the last character of a text behind which no literal is open. -/
theorem getLast?_mask (closed : openAfter none t = none) : (mask t).getLast? = t.getLast? := by
  rcases List.eq_nil_or_concat t with rfl | ⟨t, c, rfl⟩
  · rfl
  · rw [List.concat_eq_append] at closed ⊢
    rw [openAfter_append, openAfter_cons, openAfter_nil] at closed
    have isShown : shown (openAfter none t) c = [c] := by
      rcases shown_cases (openAfter none t) c with ⟨isShown, -⟩ | ⟨-, stays⟩
      · exact isShown
      · rw [← stays, closed]
        rfl
    simp [mask, maskFrom, isShown]

/-- What a mask shows and is no blank stands at the same place in the text, and is there outside literals or ends
one. -/
theorem exists_of_maskFrom_eq_append {m body : Text} (notBlank : c ≠ ' ')
    (split : maskFrom quote t = m ++ c :: body) :
    ∃ before rest, t = before ++ c :: rest ∧ maskFrom quote before = m ∧
      maskFrom (next (openAfter quote before) c) rest = body ∧
      (openAfter quote before = none ∨ openAfter quote before = some c ∨ c = '\n') := by
  induction t generalizing quote m with
  | nil => cases m <;> cases split
  | cons d t ih =>
    rw [maskFrom] at split
    -- where the mask of `d` is all in front of `c`, the character is found further on
    have later : ∀ m', m = shown quote d ++ m' → maskFrom (next quote d) t = m' ++ c :: body →
        ∃ before rest, d :: t = before ++ c :: rest ∧ maskFrom quote before = m ∧
          maskFrom (next (openAfter quote before) c) rest = body ∧
          (openAfter quote before = none ∨ openAfter quote before = some c ∨ c = '\n') := by
      rintro m' rfl rest
      obtain ⟨before, after, rfl, masked, body, state⟩ := ih rest
      exact ⟨d :: before, after, rfl, by rw [maskFrom, masked], body, state⟩
    rcases List.append_eq_append_iff.1 split with ⟨m', isLater, rest⟩ | ⟨left, isShown, rest⟩
    · exact later m' isLater rest
    · cases left with
      | nil => exact later [] (by simpa using isShown.symm) rest.symm
      | cons e left =>
        obtain ⟨rfl, tail⟩ := List.cons.inj rest
        rcases shown_cases quote d with ⟨alone, state⟩ | ⟨blanks, -⟩
        · rw [alone] at isShown
          obtain ⟨rfl, here⟩ : m = [] ∧ c :: left = [d] := by
            cases m with
            | nil => exact ⟨rfl, isShown.symm⟩
            | cons e m => simp at isShown
          obtain ⟨rfl, rfl⟩ := List.cons.inj here
          exact ⟨[], t, rfl, rfl, tail.symm, state⟩
        · have blank : c ∈ List.replicate d.utf8Size ' ' := by rw [← blanks, isShown]; simp
          exact absurd (List.eq_of_mem_replicate blank) notBlank

end CobolAtlas.Literal
