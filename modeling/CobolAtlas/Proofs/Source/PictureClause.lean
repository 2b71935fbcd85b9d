/-
# CobolAtlas.Proofs.Source.PictureClause -- the picture of a clause in any layout

A picture is found behind PIC or PICTURE, with IS or without, in any letter case and with any gaps.  A
`PictureOpening` is what comes before it: a text that has neither keyword as a word and behind which a word can start,
and the words of the clause.  A search for a clause goes through that text (`PictureOpening.search_eq`).

The main statement is `picture?_clause`: what is found is the picture as it was written, with the periods inside it and
without those behind it.  IS is left out, for behind a keyword it is the word before a picture.
-/
import CobolAtlas.Proofs.Skeleton.Reading
import CobolAtlas.Proofs.Source.StatementLayout

namespace CobolAtlas.Source

set_option autoImplicit false

open Text

/-- What comes before the picture of a clause: a text that has neither PIC nor PICTURE as a word, one of these, IS
behind a gap or nothing, and a gap. -/
structure PictureOpening where
  before : Text
  keyword : Text
  /-- A gap and IS. -/
  copula : Option (Text × Text)
  gap : Text
  isOpen : endsOpen true before = true := by decide +kernel
  noPic : hasWord "PIC".toList before = false := by decide +kernel
  noPicture : hasWord "PICTURE".toList before = false := by decide +kernel
  spelled : spells "PIC".toList keyword = true ∨ spells "PICTURE".toList keyword = true := by decide +kernel
  isCopula : ∀ c ∈ copula, IsGap c.1 ∧ spells "IS".toList c.2 = true := by decide +kernel
  isGap : IsGap gap := by decide +kernel

namespace PictureOpening

variable (o : PictureOpening)

/-- The words of the clause, as far as the picture. -/
def words : Text := o.keyword ++ ((o.copula.elim [] fun c => c.1 ++ c.2) ++ o.gap)

def text : Text := o.before ++ o.words

/-- A search for a clause goes through what stands in front of it. -/
theorem search_eq (t : Text) : search pictureClause? (o.before ++ t) = search pictureClause? t := by
  refine search_append_of_words o.isOpen ?_ t
  intro start w after split startsWord word ends rest ends'
  exact Skeleton.pictureClause?_eq_none word ends' (spells_eq_false_of_hasWord o.noPic split startsWord ends)
    (spells_eq_false_of_hasWord o.noPicture split startsWord ends)

/-- The clause is read from its keyword to the last period behind its picture. -/
theorem pictureClause?_words (p : Skeleton.PictureString) (notIs : spells "IS".toList p.text = false) {dots rest : Text}
    (periods : ∀ c ∈ dots, c = '.') (stops : ∀ c ∈ rest.head?, isBlank c = true) :
    pictureClause? (o.words ++ (p.text ++ dots ++ rest)) = some (p.text ++ dots) := by
  rw [words]
  cases copula : o.copula with
  | none =>
    simp only [Option.elim_none, List.nil_append, List.append_assoc o.keyword]
    exact p.pictureClause?_run periods stops o.spelled o.isGap (.inl notIs)
  | some c =>
    obtain ⟨gap, is⟩ := o.isCopula c copula
    simp only [Option.elim_some, List.append_assoc o.keyword, List.append_assoc c.1, List.append_assoc c.2]
    exact p.pictureClause?_is periods stops o.spelled gap is o.isGap

end PictureOpening

/-- **A picture is found as it was written.**  Behind any text without PIC or PICTURE as a word, in any letter case, with
or without IS and with any gaps, the picture of a clause that a blank or the end of the text follows is all of it but the
periods behind it, unless it is IS. -/
theorem picture?_clause (o : PictureOpening) (p : Skeleton.PictureString)
    (notIs : sameIgnoringCase "IS".toList p.text = false) (periods : Nat) {rest : Text}
    (stops : ∀ c ∈ rest.head?, isBlank c = true) :
    picture? (o.text ++ (p.text ++ (List.replicate periods '.' ++ rest))) = some p.text := by
  have other : spells "IS".toList p.text = false := by
    rw [Bool.eq_false_iff]
    intro spelled
    rw [sameIgnoringCase_of_spells p.ascii spelled] at notIs
    cases notIs
  have areDots : ∀ c ∈ List.replicate periods '.', c = '.' := fun c => List.eq_of_mem_replicate
  apply p.picture?_of_search areDots
  rw [PictureOpening.text, ← List.append_assoc p.text, List.append_assoc o.before, o.search_eq]
  exact search_eq_some pictureClause? (o.pictureClause?_words p other areDots stops)

/-- A picture with periods inside and behind it, after words that PIC and PICTURE only begin. -/
theorem picture?_clause_edited :
    picture? ("05 PICTURES, PIC-TURE\n".toList ++ ("Picture".toList ++ ((" ".toList ++ "is".toList) ++ "\t ".toList)) ++
        ("ISZ.ZZ9,99-".toList ++ (List.replicate 2 '.' ++ " PIC X".toList))) = some "ISZ.ZZ9,99-".toList ∧
      picture? ("".toList ++ ("pic".toList ++ ([] ++ " ".toList)) ++ ("ISZ.ZZ9,99-".toList ++ (List.replicate 0 '.' ++ []))) =
        some "ISZ.ZZ9,99-".toList := by
  let edited : Skeleton.PictureString := { text := "ISZ.ZZ9,99-".toList }
  have notIs : sameIgnoringCase "IS".toList edited.text = false := by decide
  have blank : ∀ c ∈ " PIC X".toList.head?, isBlank c = true := by
    rintro c ⟨⟩
    decide
  constructor
  · exact picture?_clause
      { before := "05 PICTURES, PIC-TURE\n".toList, keyword := "Picture".toList, copula := some (" ".toList, "is".toList),
        gap := "\t ".toList } edited notIs 2 blank
  · exact picture?_clause { before := [], keyword := "pic".toList, copula := none, gap := " ".toList } edited notIs 0
      nofun

end CobolAtlas.Source
