/-
# CobolAtlas.Proofs.Skeleton.Sentence -- sentences of words

A sentence is made of pieces with a blank between two of them, and a period unless it goes on.  What a
reader looks at is its first pieces: the word at the start and the text after the blank tell whether the
sentence is a header (`header?_eq_none`, `header?_section`) or a paragraph (`paragraphName?_word`).
-/
import CobolAtlas.Proofs.Skeleton.Basic
import CobolAtlas.Proofs.Source.Line
import CobolAtlas.Proofs.Text.Ends
import CobolAtlas.Proofs.Text.Word
import CobolAtlas.Source.Line

namespace CobolAtlas.Skeleton

set_option autoImplicit false

open Text Source

/-! ## Sentences -/

section Pieces

variable {period : Bool} {pieces : List Text}

theorem getLast?_sentence (pieces : List Text) : (sentence true pieces).getLast? = some '.' := by
  fun_induction sentence true pieces with
  | case1 => rfl
  | case2 piece =>
    show (piece ++ ['.']).getLast? = some '.'
    rw [List.getLast?_concat]
  | case3 piece pieces more ih =>
    have tail : (' ' :: sentence true pieces).getLast? = some '.' := by
      rw [List.getLast?_cons, ih, Option.getD_some]
    rw [List.getLast?_append, tail, Option.some_or]

/-- Where the sentence goes on, the line ends with the last piece. -/
theorem getLast?_sentence_open (pieces : List Text) {piece : Text} (nonempty : piece ≠ []) :
    (sentence false (pieces ++ [piece])).getLast? = piece.getLast? := by
  induction pieces with
  | nil =>
    show (piece ++ []).getLast? = piece.getLast?
    rw [List.append_nil]
  | cons first pieces ih =>
    have written : sentence false (first :: pieces ++ [piece]) =
        first ++ ' ' :: sentence false (pieces ++ [piece]) := by
      cases pieces <;> rfl
    obtain ⟨c, last⟩ := Option.ne_none_iff_exists'.1 (mt List.getLast?_eq_none_iff.1 nonempty)
    rw [written, List.getLast?_append, List.getLast?_cons, ih, last, Option.getD_some, Option.some_or]

theorem endsName_ending (period : Bool) : endsName (ending period) = true := by
  cases period <;> rfl

theorem eq_period_of_mem_ending {c : Char} (member : c ∈ ending period) : c = '.' := by
  cases period with
  | true => exact List.mem_singleton.1 member
  | false => cases member

/-- A sentence has the characters of its pieces, blanks and a period. -/
theorem mem_of_mem_sentence {c : Char} (member : c ∈ sentence period pieces) :
    c = ' ' ∨ c = '.' ∨ ∃ piece ∈ pieces, c ∈ piece := by
  fun_induction sentence period pieces with
  | case1 => exact .inr (.inl (eq_period_of_mem_ending member))
  | case2 piece =>
    rcases List.mem_append.1 member with inside | atEnd
    · exact .inr (.inr ⟨piece, List.mem_cons_self, inside⟩)
    · exact .inr (.inl (eq_period_of_mem_ending atEnd))
  | case3 piece pieces more ih =>
    rcases List.mem_append.1 member with inside | after
    · exact .inr (.inr ⟨piece, List.mem_cons_self, inside⟩)
    · rcases List.mem_cons.1 after with blank | later
      · exact .inl blank
      · rcases ih later with blank | atEnd | ⟨other, among, inside⟩
        · exact .inl blank
        · exact .inr (.inl atEnd)
        · exact .inr (.inr ⟨other, List.mem_cons_of_mem piece among, inside⟩)

/-- Neither blank nor period makes a comment of a piece. -/
theorem beforeComment_sentence (whole : ∀ piece ∈ pieces, beforeComment piece = piece) :
    beforeComment (sentence period pieces) = sentence period pieces := by
  have atEnd : beforeComment (ending period) = ending period := by cases period <;> rfl
  fun_induction sentence period pieces with
  | case1 => exact atEnd
  | case2 piece =>
    have here : beforeComment piece = piece := whole piece List.mem_cons_self
    have meet : (ending period).head? ≠ some '>' := by cases period <;> rintro ⟨⟩
    rw [beforeComment_append here fun _ => meet, atEnd]
  | case3 piece pieces more ih =>
    have here : beforeComment piece = piece := whole piece List.mem_cons_self
    have later := ih fun other among => whole other (List.mem_cons_of_mem piece among)
    have blank : beforeComment (' ' :: sentence period pieces) = ' ' :: sentence period pieces := by
      have notStar : [' '].getLast? ≠ some '*' := by decide
      have joined := beforeComment_append (t := [' ']) (u := sentence period pieces) rfl (absurd · notStar)
      rwa [later] at joined
    have meet : (' ' :: sentence period pieces).head? ≠ some '>' := by rintro ⟨⟩
    rw [beforeComment_append here fun _ => meet, blank]

end Pieces

/-! ## Headers -/

section Headers

variable {w t : Text}

theorem headerName?_append (word : IsWord w) (starts : w.head?.any Char.isAlphanum = true) {c : Char}
    (notBlank : isBlank c = false) : headerName? (w ++ ' ' :: c :: t) = some (w, c :: t) := by
  obtain ⟨d, v, rfl, alphanum⟩ := exists_cons_of_head?_any starts
  have name : name? (d :: v ++ ' ' :: c :: t) = some (d :: v, ' ' :: c :: t) :=
    name?_append (List.cons_ne_nil d v) word rfl
  simp only [headerName?, name, Option.bind_eq_bind, Option.bind_some, isWordCharacter_of_isAlphanum alphanum,
    if_true, skipBlanks?_cons_cons notBlank, Option.map_some]

/-- Without a blank after the first word there is no name of a header. -/
theorem headerName?_eq_none (word : IsWord w) {c : Char} (stop : isNameCharacter c = false)
    (notBlank : isBlank c = false) : headerName? (w ++ c :: t) = none := by
  cases w with
  | nil => rw [headerName?, List.nil_append, name?_eq_none (by simp [endsName, stop])]; rfl
  | cons d v =>
    have name : name? (d :: v ++ c :: t) = some (d :: v, c :: t) :=
      name?_append (List.cons_ne_nil d v) word (by simp [endsName, stop])
    simp only [headerName?, name, Option.bind_eq_bind, Option.bind_some, skipBlanks?_eq_none notBlank,
      Option.map_none, ite_self]

theorem programIdName?_eq_none (word : IsWord w) (ends : endsName t = true)
    (notId : spells "PROGRAM-ID".toList w = false) : programIdName? (w ++ t) = none := by
  refine afterKeyword?_bind_eq_none (fun c rest name => ?_) (by decide) word ends notId
  have notBlank : isBlank c = false := isBlank_of_isNameCharacter name
  have notPeriod : c ≠ '.' := by rintro rfl; cases name
  have stuck : afterIdSeparator? (c :: rest) = none := by
    unfold afterIdSeparator?
    rw [trimStart_cons_of_not_blank notBlank]
    split
    · rename_i same
      exact absurd (List.cons.inj same).1 notPeriod
    · exact skipBlanks?_eq_none notBlank rest
  simp only [stuck, Option.bind_eq_bind, Option.bind_none]

/-- A word in the place of SECTION is not taken for it. -/
theorem not_section {α : Type} (a : α) (word : IsWord w) (ends : endsName t = true)
    (notSection : spells "SECTION".toList w = false) :
    ((afterKeyword? "SECTION".toList (w ++ t)).bind fun rest =>
      if (trimStart rest).head? = some '.' then some a else none) = none := by
  refine afterKeyword?_bind_eq_none (fun c rest name => ?_) (by decide) word ends notSection
  have notPeriod : c ≠ '.' := by rintro rfl; cases name
  rw [trimStart_cons_of_not_blank (isBlank_of_isNameCharacter name), if_neg (by simpa using notPeriod)]

/-- What follows the first word decides whether a line is a header. -/
theorem header?_eq_none (word : IsWord w) (starts : w.head?.any Char.isAlphanum = true)
    (notId : spells "PROGRAM-ID".toList w = false) {c : Char} (notBlank : isBlank c = false)
    (noDivision : afterKeyword? "DIVISION".toList (c :: t) = none)
    (noSection : ((afterKeyword? "SECTION".toList (c :: t)).bind fun rest =>
      if (trimStart rest).head? = some '.' then some w else none) = none) :
    header? (w ++ ' ' :: c :: t) = none := by
  have name := headerName?_append (t := t) word starts notBlank
  have division : divisionName? (w ++ ' ' :: c :: t) = none := by
    simp only [divisionName?, name, Option.bind_eq_bind, Option.bind_some, noDivision, Option.bind_none]
  have section_ : sectionName? (w ++ ' ' :: c :: t) = none := by
    simp only [sectionName?, name, Option.bind_eq_bind, Option.bind_some]
    exact noSection
  have noId : programIdName? (w ++ ' ' :: c :: t) = none := programIdName?_eq_none word rfl notId
  rw [header?, division, section_, noId]
  rfl

/-- Two words that begin no header. -/
theorem header?_words (word : IsWord w) (starts : w.head?.any Char.isAlphanum = true)
    (notId : spells "PROGRAM-ID".toList w = false) {v : Text} (word' : IsWord v) (nonempty : v ≠ [])
    (noDivision : afterKeyword? "DIVISION".toList v = none)
    (notSection : spells "SECTION".toList v = false) (ends : endsName t = true) :
    header? (w ++ ' ' :: (v ++ t)) = none := by
  have division : afterKeyword? "DIVISION".toList (v ++ t) = none := by
    rw [afterKeyword?_append (by decide) ends, noDivision, Option.map_none]
  have section_ := not_section w word' ends notSection
  obtain ⟨c, v, rfl⟩ := List.exists_cons_of_ne_nil nonempty
  exact header?_eq_none word starts notId (isBlank_of_isNameCharacter word'.head) division section_

theorem header?_section (word : IsWord w) (starts : w.head?.any Char.isAlphanum = true) :
    header? (sentence true [w, "SECTION".toList]) = some (.sectionHead w) := by
  have name := headerName?_append (t := "ECTION.".toList) word starts (c := 'S') (by decide)
  have noDivision : afterKeyword? "DIVISION".toList ('S' :: "ECTION.".toList) = none := rfl
  have found : afterKeyword? "SECTION".toList ('S' :: "ECTION.".toList) = some ['.'] := rfl
  have division : divisionName? (sentence true [w, "SECTION".toList]) = none := by
    show divisionName? (w ++ ' ' :: 'S' :: "ECTION.".toList) = none
    simp only [divisionName?, name, Option.bind_eq_bind, Option.bind_some, noDivision, Option.bind_none]
  have section_ : sectionName? (sentence true [w, "SECTION".toList]) = some w := by
    show sectionName? (w ++ ' ' :: 'S' :: "ECTION.".toList) = some w
    simp only [sectionName?, name, Option.bind_eq_bind, Option.bind_some, found]
    exact if_pos rfl
  rw [header?, division, section_]

theorem header?_paragraph (word : IsWord w) (notId : spells "PROGRAM-ID".toList w = false) :
    header? (sentence true [w]) = none := by
  have name : headerName? (sentence true [w]) = none := headerName?_eq_none word (by decide) (by decide)
  have noId : programIdName? (sentence true [w]) = none := programIdName?_eq_none word rfl notId
  simp only [header?, divisionName?, sectionName?, name, noId, Option.bind_eq_bind, Option.bind_none,
    Option.map_none]

end Headers

/-! ## Paragraphs -/

section Paragraphs

variable {w : Text}

theorem paragraphName?_word (word : IsWord w) (nonempty : w ≠ []) : paragraphName? (sentence true [w]) = some w := by
  have name : name? (w ++ ['.']) = some (w, ['.']) := name?_append nonempty word rfl
  show paragraphName? (w ++ ['.']) = some w
  simp only [paragraphName?, name, Option.bind_eq_bind, Option.bind_some]
  exact if_pos rfl

end Paragraphs

end CobolAtlas.Skeleton
