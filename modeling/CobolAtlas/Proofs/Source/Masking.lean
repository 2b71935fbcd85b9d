/-
# CobolAtlas.Proofs.Source.Masking -- what is read the same of a masked text

A text and its mask are the same as far as the first quote, and a quote that opens a literal is shown.  So whatever
stops at a quote reads the same of both: it passes the same characters and leaves the mask of what it leaves of the
text (`takeWhile_mask`, `dropWhile_mask`).  The headers of divisions, sections and paragraphs are read in this way
(`divisionName?_mask`, `sectionName?_mask`, `paragraphName?_mask`).
-/
import CobolAtlas.Proofs.Source.Literal
import CobolAtlas.Proofs.Text.Ends
import CobolAtlas.Proofs.Text.Word
import CobolAtlas.Source.Header

namespace CobolAtlas

set_option autoImplicit false

open Text

namespace Literal

/-- The class holds no quote. -/
def Spares (p : Char → Bool) : Prop := ∀ c, Name.isQuote c = true → p c = false

variable {p : Char → Bool}

theorem Spares.noQuote (spares : Spares p) {t : Text} (all : ∀ c ∈ t, p c = true) : ∀ c ∈ t, Name.isQuote c = false := by
  intro c member
  rw [Bool.eq_false_iff]
  intro quote
  have inClass := all c member
  rw [spares c quote] at inClass
  cases inClass

theorem mask_cons {c : Char} (plain : Name.isQuote c = false) (t : Text) : mask (c :: t) = c :: mask t :=
  maskFrom_none_append (List.forall_mem_singleton.2 plain) t

theorem head?_mask (t : Text) : (mask t).head? = t.head? := by
  cases t <;> rfl

theorem takeWhile_mask (spares : Spares p) (t : Text) : (mask t).takeWhile p = t.takeWhile p := by
  induction t with
  | nil => rfl
  | cons c t ih =>
    cases quote : Name.isQuote c with
    | false => rw [mask_cons quote, List.takeWhile_cons, List.takeWhile_cons, ih]
    | true =>
      have stops := spares c quote
      rw [mask, maskFrom_none_quote quote, List.takeWhile_cons_of_neg (by simp [stops]),
        List.takeWhile_cons_of_neg (by simp [stops])]

theorem dropWhile_mask (spares : Spares p) (t : Text) : (mask t).dropWhile p = mask (t.dropWhile p) := by
  induction t with
  | nil => rfl
  | cons c t ih =>
    cases quote : Name.isQuote c with
    | false =>
      rw [mask_cons quote, List.dropWhile_cons, List.dropWhile_cons, ih]
      split
      · rfl
      · rw [mask_cons quote]
    | true =>
      have stops := spares c quote
      rw [mask, maskFrom_none_quote quote, List.dropWhile_cons_of_neg (by simp [stops]),
        List.dropWhile_cons_of_neg (by simp [stops]), mask, maskFrom_none_quote quote]

theorem mask_eq_nil_iff (t : Text) : mask t = [] ↔ t = [] := by
  rw [← List.head?_eq_none_iff, head?_mask, List.head?_eq_none_iff]

/-- The first quote of a mask is the first quote of the text. -/
theorem exists_of_mask_eq_append {front body : Text} {q : Char} (plain : ∀ c ∈ front, Name.isQuote c = false)
    (quote : Name.isQuote q = true) {t : Text} (masked : mask t = front ++ q :: body) :
    ∃ rest, t = front ++ q :: rest ∧ maskFrom (some q) rest = body := by
  induction front generalizing t with
  | nil =>
    cases t with
    | nil => cases masked
    | cons c t =>
      obtain rfl : c = q := Option.some.inj ((head?_mask (c :: t)).symm.trans (congrArg List.head? masked))
      rw [mask, maskFrom_none_quote quote] at masked
      exact ⟨t, rfl, (List.cons.inj masked).2⟩
  | cons d front ih =>
    have here : Name.isQuote d = false := plain d List.mem_cons_self
    cases t with
    | nil => cases masked
    | cons c t =>
      obtain rfl : c = d := Option.some.inj ((head?_mask (c :: t)).symm.trans (congrArg List.head? masked))
      rw [mask_cons here] at masked
      obtain ⟨rest, rfl, shown⟩ := ih (fun e member => plain e (List.mem_cons_of_mem c member)) (List.cons.inj masked).2
      exact ⟨rest, rfl, shown⟩

/-- A mask shows a quote where the text has one. -/
theorem plain_mask_iff (t : Text) :
    (∀ c ∈ mask t, Name.isQuote c = false) ↔ ∀ c ∈ t, Name.isQuote c = false := by
  have spares : Spares fun c => !Name.isQuote c := fun c quote => congrArg (!·) quote
  have none (u : Text) : (∀ c ∈ u, Name.isQuote c = false) ↔ u.dropWhile (fun c => !Name.isQuote c) = [] := by
    simp
  rw [none, none, dropWhile_mask spares, mask_eq_nil_iff]

theorem spares_of_quotes (double : p '"' = false) (single : p '\'' = false) : Spares p := by
  intro c quote
  rcases Bool.or_eq_true_iff.1 quote with same | same
  · rw [beq_iff_eq.1 same]
    exact double
  · rw [beq_iff_eq.1 same]
    exact single

theorem spares_isBlank : Spares isBlank := spares_of_quotes rfl rfl

theorem spares_isNameCharacter : Spares isNameCharacter := spares_of_quotes (by decide) (by decide)

end Literal

namespace Source

open Literal

variable (t : Text)

theorem trimStart_mask : trimStart (mask t) = mask (trimStart t) := dropWhile_mask spares_isBlank t

theorem skipBlanks?_mask : skipBlanks? (mask t) = (skipBlanks? t).map mask := by
  cases t with
  | nil => rfl
  | cons c t =>
    cases quote : Name.isQuote c with
    | false =>
      rw [mask_cons quote, skipBlanks?, skipBlanks?, trimStart_mask]
      split <;> rfl
    | true =>
      have stops := spares_isBlank c quote
      rw [mask, maskFrom_none_quote quote, skipBlanks?, skipBlanks?, stops]
      rfl

theorem name?_mask : name? (mask t) = (name? t).map fun (name, rest) => (name, mask rest) := by
  rw [name?, name?, takeWhile_mask spares_isNameCharacter, dropWhile_mask spares_isNameCharacter]
  cases t.takeWhile isNameCharacter <;> rfl

/-- No quote stands for a letter of a keyword. -/
theorem afterKeyword?_mask {keyword : Text} (letters : isKeyword keyword = true) :
    afterKeyword? keyword (mask t) = (afterKeyword? keyword t).map mask := by
  induction keyword generalizing t with
  | nil => cases t <;> rfl
  | cons k keyword ih =>
    simp only [isKeyword, List.all_cons, Bool.and_eq_true] at letters
    cases t with
    | nil => rfl
    | cons c t =>
      cases quote : Name.isQuote c with
      | false =>
        rw [mask_cons quote, afterKeyword?, afterKeyword?, ih t letters.2]
        split <;> rfl
      | true =>
        have stops : letterStandsFor k c = false := by
          rw [Bool.eq_false_iff]
          exact fun stands => by
            simpa [spares_isNameCharacter c quote] using isNameCharacter_of_letterStandsFor letters.1 stands
        rw [mask, maskFrom_none_quote quote, afterKeyword?, afterKeyword?, stops]
        rfl

theorem headerName?_mask : headerName? (mask t) = (headerName? t).map fun (name, rest) => (name, mask rest) := by
  simp only [headerName?, name?_mask, Option.bind_eq_bind]
  cases name? t with
  | none => rfl
  | some found =>
    obtain ⟨_ | ⟨c, name⟩, rest⟩ := found
    · rfl
    · simp only [Option.map_some, Option.bind_some, skipBlanks?_mask]
      split
      · cases skipBlanks? rest <;> rfl
      · rfl

theorem endsWord_mask : endsWord (mask t) = endsWord t := by
  cases t <;> rfl

theorem divisionName?_mask : divisionName? (mask t) = divisionName? t := by
  have letters : isKeyword "DIVISION".toList = true := by decide
  simp only [divisionName?, headerName?_mask, Option.bind_eq_bind]
  cases headerName? t with
  | none => rfl
  | some found =>
    simp only [Option.map_some, Option.bind_some, afterKeyword?_mask _ letters]
    cases afterKeyword? "DIVISION".toList found.2 with
    | none => rfl
    | some rest => simp only [Option.map_some, Option.bind_some, endsWord_mask]

theorem sectionName?_mask : sectionName? (mask t) = sectionName? t := by
  have letters : isKeyword "SECTION".toList = true := by decide
  simp only [sectionName?, headerName?_mask, Option.bind_eq_bind]
  cases headerName? t with
  | none => rfl
  | some found =>
    simp only [Option.map_some, Option.bind_some, afterKeyword?_mask _ letters]
    cases afterKeyword? "SECTION".toList found.2 with
    | none => rfl
    | some rest => simp only [Option.map_some, Option.bind_some, trimStart_mask, head?_mask]

/-- A text that is a period but for blanks holds no quote. -/
theorem trim_mask_eq_period_iff : trim (mask t) = ['.'] ↔ trim t = ['.'] := by
  have plain {u : Text} (period : trim u = ['.']) : ∀ c ∈ u, Name.isQuote c = false := by
    intro c member
    rw [Bool.eq_false_iff]
    intro quote
    have kept : c ∈ trim u := mem_trim_of_not_blank member (spares_isBlank c quote)
    rw [period, List.mem_singleton] at kept
    rw [kept] at quote
    cases quote
  constructor
  · intro period
    rwa [mask_eq_self ((plain_mask_iff t).1 (plain period))] at period
  · intro period
    rwa [mask_eq_self (plain period)]

theorem paragraphName?_mask : paragraphName? (mask t) = paragraphName? t := by
  simp only [paragraphName?, name?_mask, Option.bind_eq_bind]
  cases name? t with
  | none => rfl
  | some found => simp only [Option.map_some, Option.bind_some, trim_mask_eq_period_iff]

end Source

end CobolAtlas
