/-
# CobolAtlas.Proofs.Source.Literal -- what a mask shows

A mask reads a text from left to right and knows which quote is open.  What holds no quote is shown as it
is (`maskFrom_none_append`), and between a quote and the next same quote on the line only blanks are
shown, one for each byte (`maskFrom_some_append`).  That quote is shown, and so is the end of a line
(`maskFrom_some_ends`).
-/
import CobolAtlas.Source.Literal

namespace CobolAtlas.Literal

set_option autoImplicit false

open Text

theorem ne_blank_of_isQuote {q : Char} (quote : Name.isQuote q = true) : q ≠ ' ' := by
  rintro rfl
  cases quote

theorem notMem_blanks {q : Char} (quote : Name.isQuote q = true) (n : Nat) : q ∉ List.replicate n ' ' :=
  fun member => ne_blank_of_isQuote quote (List.eq_of_mem_replicate member)

theorem ne_newline_of_isQuote {q : Char} (quote : Name.isQuote q = true) : q ≠ '\n' := by
  rintro rfl
  cases quote

/-- Outside literals a quote opens one, and no other character does. -/
theorem next_none_quote {q : Char} (quote : Name.isQuote q = true) : next none q = some q := by
  simp [next, quote]

theorem next_none_plain {c : Char} (plain : Name.isQuote c = false) : next none c = none := by
  simp [next, plain]

theorem maskFrom_none_append {t : Text} (noQuote : ∀ c ∈ t, Name.isQuote c = false) (rest : Text) :
    maskFrom none (t ++ rest) = t ++ maskFrom none rest := by
  induction t with
  | nil => rfl
  | cons c t ih =>
    have here := next_none_plain (noQuote c List.mem_cons_self)
    have after := ih fun d member => noQuote d (List.mem_cons_of_mem c member)
    rw [List.cons_append, maskFrom, here, after]
    rfl

theorem mask_eq_self {t : Text} (noQuote : ∀ c ∈ t, Name.isQuote c = false) : mask t = t := by
  have whole := maskFrom_none_append noQuote []
  rwa [List.append_nil, maskFrom, List.append_nil] at whole

/-- An opening quote is shown and opens its literal. -/
theorem maskFrom_none_quote {q : Char} (quote : Name.isQuote q = true) (rest : Text) :
    maskFrom none (q :: rest) = q :: maskFrom (some q) rest := by
  rw [maskFrom, next_none_quote quote]
  rfl

/-- Only quotes are open. -/
theorem isQuote_of_mem_next {opened : Option Char} (quotes : ∀ q ∈ opened, Name.isQuote q = true) (c : Char) :
    ∀ q ∈ next opened c, Name.isQuote q = true := by
  cases opened with
  | some q =>
    simp only [next]
    split
    · exact nofun
    · exact quotes
  | none =>
    simp only [next]
    split
    · rename_i quote
      exact fun q opens => Option.some.inj opens ▸ quote
    · exact nofun

/-- Inside a literal a character that does not end it is hidden by blanks. -/
theorem next_some {q c : Char} (notQuote : c ≠ q) (notEnd : c ≠ '\n') :
    next (some q) c = some q ∧ shown (some q) c = List.replicate c.utf8Size ' ' := by
  constructor
  · simp [next, notQuote, notEnd]
  · simp [shown, notQuote, notEnd]

/-- A literal ends with its quote or with its line. -/
theorem next_some_ends {q c : Char} (ends : c = q ∨ c = '\n') : next (some q) c = none := by
  simp [next, ends]

theorem maskFrom_some_ends {q c : Char} (ends : c = q ∨ c = '\n') (rest : Text) :
    maskFrom (some q) (c :: rest) = c :: maskFrom none rest := by
  simp [maskFrom, shown, next_some_ends ends, ends]

theorem maskFrom_some_append {q : Char} {t : Text} (noQuote : q ∉ t) (oneLine : '\n' ∉ t) (rest : Text) :
    maskFrom (some q) (t ++ q :: rest) =
      List.replicate (byteLength t) ' ' ++ q :: maskFrom none rest := by
  induction t with
  | nil => exact maskFrom_some_ends (.inl rfl) rest
  | cons c t ih =>
    have notQuote : c ≠ q := fun same => noQuote (same ▸ List.mem_cons_self)
    have notEnd : c ≠ '\n' := fun same => oneLine (same ▸ List.mem_cons_self)
    obtain ⟨stays, blank⟩ := next_some notQuote notEnd
    have after := ih (fun member => noQuote (List.mem_cons_of_mem c member))
      fun member => oneLine (List.mem_cons_of_mem c member)
    rw [List.cons_append, maskFrom, stays, blank, after, byteLength_cons, ← List.append_assoc,
      List.replicate_append_replicate]

end CobolAtlas.Literal
