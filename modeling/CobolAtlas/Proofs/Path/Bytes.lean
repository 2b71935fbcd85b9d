/-
# CobolAtlas.Proofs.Path.Bytes -- what is shown of a name keeps its separators

Every sequence of bytes without a NUL is the bytes of a text (`exists_bytesOf_eq`).  A text without NULs has its UTF-8
form for bytes and is shown as it is (`shownText_of_noNul`).

What is no text is replaced within a name: a character of ASCII other than NUL is part of no byte that is written out,
and the decoder takes its byte for no part of another character (`Partial.IsScalar`).  So a slash stands between what
is shown of the texts on its sides (`shownText_append`), none comes or goes (`mem_shownText_iff`), and the steps of
what is shown of a path are what is shown of its steps (`components_shown`).
-/
import CobolAtlas.Proofs.Path.Components
import CobolAtlas.Proofs.Text.Utf8

namespace CobolAtlas

set_option autoImplicit false

open Text

/-! ## ASCII in bytes -/

/-- The step as text. -/
def Component.shown : Component → Component
  | .name n => .name (Path.shownText n)
  | c => c

namespace Path

section Bytes

variable {marked : Bool} {c : Char}

theorem isRawByte_of_ascii (ascii : c.toNat < 0x80) : isRawByte c = false := by
  rw [isRawByte, decide_eq_false (Nat.not_le.2 ascii), Bool.false_and]

/-- A character of ASCII stands for its byte, whatever comes before it. -/
theorem bytesFrom_append (ascii : c.toNat < 0x80) (notNul : c ≠ '\x00') (left right : Text) :
    bytesFrom marked (left ++ c :: right) =
      bytesFrom marked left ++ UInt8.ofNat c.toNat :: bytesFrom false right := by
  induction left generalizing marked with
  | nil =>
    cases marked <;>
      simp [bytesFrom, notNul, isRawByte_of_ascii ascii, Utf8.utf8EncodeChar_of_ascii ascii]
  | cons d left ih =>
    cases marked
    · rw [List.cons_append, bytesFrom, bytesFrom]
      split
      · exact ih
      · rw [ih, List.append_assoc]
    · rw [List.cons_append, bytesFrom, bytesFrom]
      split
      · rw [ih, List.cons_append]
      · rw [List.cons_append]
        split
        · rw [ih]
        · rw [ih, List.append_assoc]

/-- The byte of a character of ASCII stands for it alone. -/
theorem mem_of_mem_bytesFrom (ascii : c.toNat < 0x80) (notNul : c ≠ '\x00') {t : Text}
    (member : UInt8.ofNat c.toNat ∈ bytesFrom marked t) : c ∈ t := by
  have byte : (UInt8.ofNat c.toNat).toNat = c.toNat := Utf8.toNat_byte (by omega)
  have notZero : UInt8.ofNat c.toNat ≠ 0 := by
    intro zero
    rw [zero] at byte
    refine notNul (Char.toNat_inj.1 ?_)
    exact byte.symm
  have ofCharacter {d : Char} {t : Text} (member : UInt8.ofNat c.toNat ∈ String.utf8EncodeChar d ++ bytesFrom false t)
      (later : UInt8.ofNat c.toNat ∈ bytesFrom false t → c ∈ t) : c ∈ d :: t := by
    rcases List.mem_append.1 member with here | member
    · by_cases ascii' : d.toNat < 0x80
      · rw [Utf8.utf8EncodeChar_of_ascii ascii', List.mem_singleton] at here
        have same := congrArg UInt8.toNat here
        rw [byte, Utf8.toNat_byte (by omega)] at same
        rw [Char.toNat_inj.1 same]
        exact List.mem_cons_self
      · have beyond := Utf8.le_of_mem_utf8EncodeChar (Nat.not_lt.1 ascii') here
        omega
    · exact List.mem_cons_of_mem d (later member)
  induction t generalizing marked with
  | nil =>
    cases marked
    · cases member
    · exact absurd (List.mem_singleton.1 member) notZero
  | cons d t ih =>
    cases marked with
    | false =>
      rw [bytesFrom] at member
      split at member
      · exact List.mem_cons_of_mem d (ih member)
      · exact ofCharacter member ih
    | true =>
      rw [bytesFrom] at member
      split at member
      · rename_i raw
        rcases List.mem_cons.1 member with here | member
        · have same := congrArg UInt8.toNat here
          simp only [isRawByte, Bool.and_eq_true, decide_eq_true_eq] at raw
          rw [byte, Utf8.toNat_byte (by omega)] at same
          omega
        · exact List.mem_cons_of_mem d (ih member)
      · rcases List.mem_cons.1 member with here | member
        · exact absurd here notZero
        · split at member
          · exact List.mem_cons_of_mem d (ih member)
          · exact ofCharacter member ih

theorem bytesOf_of_noNul {t : Text} (noNul : '\x00' ∉ t) : bytesOf t = Utf8.encode t := by
  rw [bytesOf]
  induction t with
  | nil => rfl
  | cons c t ih =>
    obtain ⟨differs, rest⟩ := not_or.1 (mt List.mem_cons.2 noNul)
    rw [bytesFrom, if_neg (Ne.symm differs), ih rest]
    rfl

/-- Texts write all that the system can call a name. -/
theorem exists_bytesOf_eq {bytes : Bytes} (noNul : 0 ∉ bytes) : ∃ name, bytesOf name = bytes := by
  induction bytes with
  | nil => exact ⟨[], rfl⟩
  | cons b bytes ih =>
    obtain ⟨differs, rest⟩ := not_or.1 (mt List.mem_cons.2 noNul)
    obtain ⟨name, rfl⟩ := ih rest
    have same : UInt8.ofNat (Char.ofNat b.toNat).toNat = b := by
      have valid : b.toNat.isValidChar := .inl (by have := b.toNat_lt; omega)
      rw [Utf8.toNat_ofNat valid, UInt8.ofNat_toNat]
    by_cases ascii : (Char.ofNat b.toNat).toNat < 0x80
    · have notNul : Char.ofNat b.toNat ≠ '\x00' := by
        intro nul
        rw [nul] at same
        exact differs same
      refine ⟨Char.ofNat b.toNat :: name, ?_⟩
      rw [bytesOf, ← List.nil_append (Char.ofNat b.toNat :: name), bytesFrom_append ascii notNul, same]
      rfl
    · refine ⟨'\x00' :: Char.ofNat b.toNat :: name, ?_⟩
      have raw : isRawByte (Char.ofNat b.toNat) = true := by
        have valid : b.toNat.isValidChar := .inl (by have := b.toNat_lt; omega)
        rw [Utf8.toNat_ofNat valid] at ascii
        rw [isRawByte, Utf8.toNat_ofNat valid, decide_eq_true (Nat.not_lt.1 ascii), decide_eq_true b.toNat_lt]
        rfl
      rw [bytesOf, bytesFrom, if_pos rfl, bytesFrom, if_pos raw, same]
      rfl

end Bytes

/-! ## What is shown -/

section Shown

variable {c : Char} {t : Text}

theorem shownText_of_noNul (noNul : '\x00' ∉ t) : shownText t = t := by
  rw [shownText, bytesOf_of_noNul noNul, Utf8.decodeLossy_encode]

@[simp] theorem shownText_nil : shownText [] = [] := rfl

/-- What is shown of a text is what is shown of its parts around a character of ASCII. -/
theorem shownText_append (ascii : c.toNat < 0x80) (notNul : c ≠ '\x00') (left right : Text) :
    shownText (left ++ c :: right) = shownText left ++ c :: shownText right := by
  have byte : (UInt8.ofNat c.toNat).toNat = c.toNat := Utf8.toNat_byte (by omega)
  have small : UInt8.ofNat c.toNat < 0x80 := by
    rw [UInt8.lt_iff_toNat_lt, byte]
    exact ascii
  rw [shownText, bytesOf, bytesFrom_append ascii notNul, Utf8.decodeLossy_append small, byte, Char.ofNat_toNat]
  rfl

theorem shownText_eq_nil_iff : shownText t = [] ↔ t = [] := by
  have marked : ∀ t, bytesFrom true t ≠ [] := by
    intro t
    cases t with
    | nil => nofun
    | cons c t => rw [bytesFrom]; split <;> nofun
  rw [shownText, Utf8.decodeLossy_eq_nil_iff, bytesOf]
  refine ⟨fun nothing => ?_, fun nothing => by rw [nothing]; rfl⟩
  cases t with
  | nil => rfl
  | cons c t =>
    rw [bytesFrom] at nothing
    split at nothing
    · exact absurd nothing (marked t)
    · have length := congrArg List.length (List.append_eq_nil_iff.1 nothing).1
      rw [String.length_utf8EncodeChar] at length
      exact absurd length (Nat.ne_of_gt c.utf8Size_pos)

/-- No character of ASCII comes or goes. -/
theorem mem_shownText_iff (ascii : c.toNat < 0x80) (notNul : c ≠ '\x00') : c ∈ shownText t ↔ c ∈ t := by
  constructor
  · intro member
    exact mem_of_mem_bytesFrom ascii notNul (Utf8.mem_of_mem_decodeLossy ascii member)
  · intro member
    obtain ⟨left, right, rfl⟩ := List.append_of_mem member
    rw [shownText_append ascii notNul]
    simp

/-- What is shown begins with a character of ASCII where the text does. -/
theorem shownText_eq_cons_iff (ascii : c.toNat < 0x80) (notNul : c ≠ '\x00') {u : Text} :
    shownText t = c :: u ↔ ∃ rest, t = c :: rest ∧ shownText rest = u := by
  constructor
  · intro same
    have member : c ∈ t := (mem_shownText_iff ascii notNul).1 (same ▸ List.mem_cons_self)
    obtain ⟨left, rest, rfl, absent⟩ := List.eq_append_cons_of_mem member
    rw [shownText_append ascii notNul] at same
    cases shown : shownText left with
    | nil =>
      rw [shown] at same
      obtain rfl := shownText_eq_nil_iff.1 shown
      exact ⟨rest, rfl, (List.cons.inj same).2⟩
    | cons d more =>
      rw [shown, List.cons_append] at same
      obtain rfl : d = c := (List.cons.inj same).1
      exact absurd ((mem_shownText_iff ascii notNul).1 (shown ▸ List.mem_cons_self)) absent
  · rintro ⟨rest, rfl, rfl⟩
    exact shownText_append ascii notNul [] rest

/-- A text of ASCII is shown for itself alone. -/
theorem shownText_eq_iff {u : Text} (ascii : ∀ c ∈ u, c.toNat < 0x80 ∧ c ≠ '\x00') : shownText t = u ↔ t = u := by
  induction u generalizing t with
  | nil => exact shownText_eq_nil_iff
  | cons c u ih =>
    obtain ⟨⟨small, notNul⟩, rest⟩ := List.forall_mem_cons.1 ascii
    rw [shownText_eq_cons_iff small notNul]
    constructor
    · rintro ⟨more, rfl, same⟩
      rw [(ih rest).1 same]
    · rintro rfl
      exact ⟨u, rfl, (ih rest).2 rfl⟩

theorem shownText_eq_current_iff : shownText t = ['.'] ↔ t = ['.'] :=
  shownText_eq_iff (List.forall_mem_singleton.2 (by decide))

theorem shownText_eq_parent_iff : shownText t = ['.', '.'] ↔ t = ['.', '.'] :=
  shownText_eq_iff (List.forall_mem_cons.2 ⟨by decide, List.forall_mem_singleton.2 (by decide)⟩)

end Shown

/-! ## Paths as they are shown -/

section Steps

variable {p root : Path} {n : Text}

theorem joinWith_map_shownText (ns : List Text) : joinWith ['/'] (ns.map shownText) = shownText (joinWith ['/'] ns) := by
  induction ns with
  | nil => rfl
  | cons n ns ih =>
    cases ns with
    | nil => rfl
    | cons m ns =>
      have more : m :: ns ≠ [] := List.cons_ne_nil m ns
      rw [List.map_cons, joinWith_cons _ (mt List.map_eq_nil_iff.1 more), ih, joinWith_cons _ more,
        shownText_append (by decide) (by decide)]

theorem splitOn_shownText (t : Text) : splitOn '/' (shownText t) = (splitOn '/' t).map shownText := by
  have noSlash : ∀ n ∈ (splitOn '/' t).map shownText, '/' ∉ n := by
    intro n member
    obtain ⟨m, listed, rfl⟩ := List.mem_map.1 member
    rw [mem_shownText_iff (by decide) (by decide)]
    exact notMem_of_mem_splitOn listed
  conv_lhs => rw [← joinWith_splitOn t, ← joinWith_map_shownText]
  exact splitOn_joinWith (by simpa using splitOn_ne_nil '/' t) noSlash

theorem isName_shownText (isName : IsName n) : IsName (shownText n) where
  nonempty := mt shownText_eq_nil_iff.1 isName.nonempty
  noSlash := mt (mem_shownText_iff (by decide) (by decide)).1 isName.noSlash
  notCurrent := mt shownText_eq_current_iff.1 isName.notCurrent
  notParent := mt shownText_eq_parent_iff.1 isName.notParent

theorem componentOf_shownText (leading : Bool) (t : Text) :
    componentOf leading (shownText t) = (componentOf leading t).map Component.shown := by
  simp only [componentOf, shownText_eq_nil_iff, shownText_eq_current_iff, shownText_eq_parent_iff]
  split
  · rfl
  split
  · cases leading <;> rfl
  split <;> rfl

theorem isAbsolute_shown (p : Path) : p.shown.isAbsolute = p.isAbsolute := by
  rw [Bool.eq_iff_iff, isAbsolute, isAbsolute, beq_iff_eq, beq_iff_eq, List.head?_eq_some_iff, List.head?_eq_some_iff]
  constructor
  · rintro ⟨u, begins⟩
    obtain ⟨rest, begins', -⟩ := (shownText_eq_cons_iff (by decide) (by decide)).1 begins
    exact ⟨rest, begins'⟩
  · rintro ⟨rest, begins⟩
    exact ⟨shownText rest, (shownText_eq_cons_iff (by decide) (by decide)).2 ⟨rest, begins, rfl⟩⟩

theorem body_shown (p : Path) : p.shown.body = shownText p.body := by
  rw [body, body, isAbsolute_shown]
  split
  · rename_i absolute
    rw [isAbsolute, beq_iff_eq, List.head?_eq_some_iff] at absolute
    obtain ⟨rest, begins⟩ := absolute
    have shown : p.shown.text = '/' :: shownText rest :=
      (shownText_eq_cons_iff (by decide) (by decide)).2 ⟨rest, begins, rfl⟩
    rw [shown, begins]
    rfl
  · rfl

theorem ofSplit_shownText (leading : Bool) (ns : List Text) :
    ofSplit leading (ns.map shownText) =
      (ofSplit leading ns).map fun x => (shownText x.1, x.2.map Component.shown) := by
  cases ns with
  | nil => rfl
  | cons n ns =>
    rw [List.map_cons, ofSplit, ofSplit, List.map_cons, List.map_map, List.map_map, componentOf_shownText]
    congr 1
    exact List.map_congr_left fun m _ => by simp only [Function.comp_apply, piece, componentOf_shownText]

/-- **The steps of what is shown of a path are what is shown of its steps.** -/
theorem components_shown (p : Path) : p.shown.components = p.components.map Component.shown := by
  rw [components, components, List.map_append, rootComponents, rootComponents, isAbsolute_shown, pieces_eq_ofSplit,
    pieces_eq_ofSplit, body_shown, splitOn_shownText, ofSplit_shownText, isAbsolute_shown, List.filterMap_map,
    List.map_filterMap]
  congr 1
  split <;> rfl

theorem name_mem_components (listed : n ∈ splitOn '/' p.body) (isName : IsName n) : .name n ∈ p.components := by
  have isStep (leading : Bool) : componentOf leading n = some (.name n) := by
    rw [componentOf_of_isPiece isName.toIsPiece, componentOf_of_isName isName]
  rw [components, List.mem_append, List.mem_filterMap, pieces_eq_ofSplit]
  refine .inr ?_
  cases split : splitOn '/' p.body with
  | nil => exact absurd split (splitOn_ne_nil '/' _)
  | cons first rest =>
    rw [split] at listed
    rcases List.mem_cons.1 listed with rfl | later
    · exact ⟨_, List.mem_cons_self, isStep _⟩
    · exact ⟨_, List.mem_cons_of_mem _ (List.mem_map_of_mem later), isStep false⟩

/-- A path is text where all its steps are. -/
theorem isText_iff : p.IsText ↔ p.components.map Component.shown = p.components := by
  constructor
  · intro isText
    rw [← components_shown, isText]
  · intro fixed
    have fixed' : ∀ c ∈ p.components, c.shown = c := List.map_inj_left.1 (fixed.trans (List.map_id _).symm)
    have pieces : ∀ n ∈ splitOn '/' p.body, shownText n = n := by
      intro n listed
      by_cases isName : IsName n
      · exact Component.name.inj (fixed' _ (name_mem_components listed isName))
      · -- what is no name between slashes is of ASCII
        by_cases plain : n = [] ∨ n = ['.'] ∨ n = ['.', '.']
        · rcases plain with rfl | rfl | rfl
          · exact shownText_nil
          · exact shownText_eq_current_iff.2 rfl
          · exact shownText_eq_parent_iff.2 rfl
        · obtain ⟨nonempty, notCurrent, notParent⟩ := by simpa only [not_or] using plain
          exact absurd ⟨⟨nonempty, notMem_of_mem_splitOn listed, notCurrent⟩, notParent⟩ isName
    have body : shownText p.body = p.body := by
      rw [← joinWith_splitOn p.body, ← joinWith_map_shownText, List.map_congr_left pieces, List.map_id']
    rw [IsText, shown]
    refine congrArg Path.mk ?_
    rw [Path.body] at body
    split at body
    · rename_i absolute
      rw [isAbsolute, beq_iff_eq, List.head?_eq_some_iff] at absolute
      obtain ⟨rest, begins⟩ := absolute
      rw [begins] at body ⊢
      exact (shownText_eq_cons_iff (by decide) (by decide)).2 ⟨rest, rfl, body⟩
    · exact body

end Steps

end Path

end CobolAtlas
