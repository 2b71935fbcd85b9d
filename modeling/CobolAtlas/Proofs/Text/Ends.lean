/-
# CobolAtlas.Proofs.Text.Ends -- what is cut at the ends of a text, and at the ends of its lines

Cutting takes nothing where the first or the last character is not of the class that is cut
(`dropWhile_eq_self`, `dropEndWhile_eq_self`), and takes all that was put there
(`trim_append`).  A text whose lines each end with a line feed has exactly these lines
(`lines_flatMap`).
-/
import CobolAtlas.Text.Blank

namespace CobolAtlas.Text

set_option autoImplicit false

/-! ## Ends -/

theorem exists_cons_of_head?_any {p : Char → Bool} {t : Text} (head : t.head?.any p = true) :
    ∃ c rest, t = c :: rest ∧ p c = true := by
  cases t with
  | nil => cases head
  | cons c rest => exact ⟨c, rest, rfl, head⟩

theorem dropWhile_eq_self {p : Char → Bool} {t : Text} (head : ∀ c ∈ t.head?, p c = false) :
    t.dropWhile p = t := by
  cases t with
  | nil => rfl
  | cons c t => simp [head c rfl]

/-- Up to the first `c` stands what has no `c` in it. -/
theorem takeWhile_ne_append {c : Char} {t : Text} (notIn : c ∉ t) (rest : Text) :
    (t ++ c :: rest).takeWhile (· != c) = t := by
  have passes : ∀ d ∈ t, (d != c) = true := by
    intro d among
    rw [bne_iff_ne]
    rintro rfl
    exact notIn among
  rw [List.takeWhile_append_of_pos passes, List.takeWhile_cons_of_neg (by simp), List.append_nil]

theorem dropEndWhile_eq_self {p : Char → Bool} {t : Text} (last : ∀ c ∈ t.getLast?, p c = false) :
    dropEndWhile p t = t := by
  have head : ∀ c ∈ t.reverse.head?, p c = false := by simpa using last
  rw [dropEndWhile, dropWhile_eq_self head, List.reverse_reverse]

theorem dropBothWhile_eq_self {p : Char → Bool} {t : Text} (head : ∀ c ∈ t.head?, p c = false)
    (last : ∀ c ∈ t.getLast?, p c = false) : dropBothWhile p t = t := by
  rw [dropBothWhile, dropWhile_eq_self head, dropEndWhile_eq_self last]

theorem dropEndWhile_append {p : Char → Bool} {t u : Text} (all : ∀ c ∈ u, p c = true) :
    dropEndWhile p (t ++ u) = dropEndWhile p t := by
  have all' : ∀ c ∈ u.reverse, p c = true := by simpa using all
  rw [dropEndWhile, List.reverse_append, List.dropWhile_append_of_pos all', dropEndWhile]

/-- What precedes a character that is kept is kept with it. -/
theorem dropEndWhile_append_cons {p : Char → Bool} {c : Char} (keeps : p c = false) (t u : Text) :
    dropEndWhile p (t ++ c :: u) = t ++ c :: dropEndWhile p u := by
  have cut : ∀ ts us : Text, (ts ++ c :: us).dropWhile p = ts.dropWhile p ++ c :: us := by
    intro ts us
    rw [List.dropWhile_append]
    split
    · rename_i all
      rw [List.isEmpty_iff.1 all, List.dropWhile_cons_of_neg (by simp [keeps])]
      rfl
    · rfl
  rw [dropEndWhile, List.reverse_append, List.reverse_cons, List.append_assoc, List.singleton_append, cut,
    List.reverse_append, List.reverse_cons, List.reverse_reverse, List.append_assoc, List.singleton_append, dropEndWhile]

theorem dropEndWhile_cons {p : Char → Bool} {c : Char} (keeps : p c = false) (t : Text) :
    dropEndWhile p (c :: t) = c :: dropEndWhile p t := dropEndWhile_append_cons keeps [] t

/-- A first character goes with what follows it, if it is of the class and nothing else is kept. -/
theorem dropEndWhile_cons_eq (p : Char → Bool) (c : Char) (t : Text) :
    dropEndWhile p (c :: t) = if (dropEndWhile p t).isEmpty && p c then [] else c :: dropEndWhile p t := by
  cases keeps : p c with
  | false => rw [dropEndWhile_cons keeps, Bool.and_false, if_neg Bool.false_ne_true]
  | true =>
    rw [Bool.and_true, dropEndWhile, dropEndWhile, List.reverse_cons, List.dropWhile_append, List.isEmpty_reverse]
    split
    · rw [List.dropWhile_cons_of_pos keeps]
      rfl
    · rw [List.reverse_append]
      rfl

/-- What is cut at the end of a text is of the class, and what is kept does not end so. -/
theorem exists_dropEndWhile_append (p : Char → Bool) (t : Text) :
    ∃ cut, t = dropEndWhile p t ++ cut ∧ (∀ c ∈ cut, p c = true) ∧ ∀ c ∈ (dropEndWhile p t).getLast?, p c = false := by
  refine ⟨(t.reverse.takeWhile p).reverse, ?_, ?_, ?_⟩
  · rw [dropEndWhile, ← List.reverse_append, List.takeWhile_append_dropWhile, List.reverse_reverse]
  · intro c member
    exact List.all_eq_true.1 List.all_takeWhile c (List.mem_reverse.1 member)
  · intro c last
    have stops := List.head?_dropWhile_not p t.reverse
    rw [dropEndWhile, List.getLast?_reverse, Option.mem_def] at last
    simpa [last] using stops

theorem mem_of_mem_dropEndWhile {p : Char → Bool} {t : Text} {c : Char} (member : c ∈ dropEndWhile p t) : c ∈ t :=
  List.mem_reverse.1 ((List.dropWhile_suffix p).subset (List.mem_reverse.1 member))

theorem mem_of_mem_trim {t : Text} {c : Char} (member : c ∈ trim t) : c ∈ t :=
  (List.dropWhile_suffix isBlank).subset (mem_of_mem_dropEndWhile member)

/-- What is no blank is not cut at the ends of a text. -/
theorem mem_trim_of_not_blank {t : Text} {c : Char} (member : c ∈ t) (notBlank : isBlank c = false) :
    c ∈ trim t := by
  have kept {u : Text} (member : c ∈ u) : c ∈ u.dropWhile isBlank := by
    induction u with
    | nil => cases member
    | cons d u ih =>
      rw [List.dropWhile_cons]
      split
      · rename_i blank
        refine ih ((List.mem_cons.1 member).resolve_left ?_)
        rintro rfl
        rw [blank] at notBlank
        cases notBlank
      · exact member
  rw [trim, trimEnd, dropEndWhile, List.mem_reverse]
  exact kept (List.mem_reverse.2 (kept member))

theorem trim_eq_self {t : Text} (head : ∀ c ∈ t.head?, isBlank c = false)
    (last : ∀ c ∈ t.getLast?, isBlank c = false) : trim t = t :=
  dropBothWhile_eq_self head last

theorem isBlank_of_mem_replicate {n : Nat} {c : Char} (member : c ∈ List.replicate n ' ') :
    isBlank c = true := by
  rw [List.eq_of_mem_replicate member]; rfl

/-- Blanks around a text are no part of it. -/
theorem trim_append {before t after : Text} (blankBefore : ∀ c ∈ before, isBlank c = true)
    (blankAfter : ∀ c ∈ after, isBlank c = true) (nonempty : t ≠ [])
    (head : ∀ c ∈ t.head?, isBlank c = false) (last : ∀ c ∈ t.getLast?, isBlank c = false) :
    trim (before ++ t ++ after) = t := by
  have start : ∀ c ∈ (t ++ after).head?, isBlank c = false := by
    obtain ⟨c, t, rfl⟩ := List.exists_cons_of_ne_nil nonempty
    exact head
  rw [trim, trimStart, List.append_assoc, List.dropWhile_append_of_pos blankBefore,
    dropWhile_eq_self start, trimEnd, dropEndWhile_append blankAfter, dropEndWhile_eq_self last]

/-! ## Slices -/

/-- Where a text is cut at its start, what is kept does not start so, whatever is cut at its end. -/
theorem head?_dropEndWhile_dropWhile (p q : Char → Bool) (t : Text) :
    ∀ c ∈ (dropEndWhile q (t.dropWhile p)).head?, p c = false := by
  intro c head
  obtain ⟨cut, whole, -⟩ := exists_dropEndWhile_append q (t.dropWhile p)
  rw [Option.mem_def] at head
  have stops := List.head?_dropWhile_not p t
  have first : (t.dropWhile p).head? = some c := by
    rw [whole, List.head?_append, head]
    rfl
  simpa [first] using stops

/-- What is cut at both ends of a text is of the class, and what is kept neither starts nor ends so. -/
theorem exists_dropBothWhile_append (p : Char → Bool) (t : Text) :
    ∃ before after, t = before ++ (dropBothWhile p t ++ after) ∧ (∀ c ∈ before, p c = true) ∧
      (∀ c ∈ after, p c = true) ∧ (∀ c ∈ (dropBothWhile p t).head?, p c = false) ∧
      ∀ c ∈ (dropBothWhile p t).getLast?, p c = false := by
  obtain ⟨after, whole, cut, last⟩ := exists_dropEndWhile_append p (t.dropWhile p)
  refine ⟨t.takeWhile p, after, ?_, List.all_eq_true.1 List.all_takeWhile, cut,
    head?_dropEndWhile_dropWhile p p t, last⟩
  rw [dropBothWhile, ← whole]
  exact List.takeWhile_append_dropWhile.symm

/-- What a text is without the blanks around it. -/
theorem exists_trim_append (t : Text) :
    ∃ before after, t = before ++ (trim t ++ after) ∧ (∀ c ∈ before, isBlank c = true) ∧
      ∀ c ∈ after, isBlank c = true := by
  obtain ⟨before, after, whole, blank, blank', -⟩ := exists_dropBothWhile_append isBlank t
  exact ⟨before, after, whole, blank, blank'⟩

/-- A part that stands between two others is a slice of the whole. -/
theorem byteSlice_append (before part after : Text) :
    byteSlice (byteLength before) (byteLength part) (before ++ (part ++ after)) = part := by
  simp only [byteSlice, splitAtByte?_append]

/-! ## Lines -/

theorem splitOn_ne_nil (separator : Char) (t : Text) : splitOn separator t ≠ [] := by
  induction t with
  | nil => exact List.cons_ne_nil _ _
  | cons c t ih =>
    rw [splitOn]
    split
    · exact List.cons_ne_nil _ _
    · split
      · exact List.cons_ne_nil _ _
      · exact List.cons_ne_nil _ _

/-- A separator splits whatever stands around it. -/
theorem splitOn_append {separator : Char} (t u : Text) :
    splitOn separator (t ++ separator :: u) = splitOn separator t ++ splitOn separator u := by
  induction t with
  | nil => simp [splitOn]
  | cons c t ih =>
    rw [List.cons_append, splitOn, splitOn, ih]
    split
    · rfl
    · cases pieces : splitOn separator t with
      | nil => exact absurd pieces (splitOn_ne_nil separator t)
      | cons piece pieces => rfl

theorem notMem_of_mem_splitOn {separator : Char} {t piece : Text} (member : piece ∈ splitOn separator t) :
    separator ∉ piece := by
  induction t generalizing piece with
  | nil => rw [List.mem_singleton.1 member]; exact List.not_mem_nil
  | cons c t ih =>
    rw [splitOn] at member
    split at member
    · rcases List.mem_cons.1 member with rfl | later
      · exact List.not_mem_nil
      · exact ih later
    · rename_i other
      have differs : separator ≠ c := fun same => other (beq_iff_eq.2 same.symm)
      split at member
      · rw [List.mem_singleton.1 member]
        simp [differs]
      · rename_i first rest pieces
        rcases List.mem_cons.1 member with rfl | later
        · have before : separator ∉ first := ih (pieces ▸ List.mem_cons_self)
          simp [differs, before]
        · exact ih (pieces ▸ List.mem_cons_of_mem first later)

theorem splitOn_of_notMem {separator : Char} {t : Text} (absent : separator ∉ t) : splitOn separator t = [t] := by
  induction t with
  | nil => rfl
  | cons c t ih =>
    have differs : c ≠ separator := fun same => absent (same ▸ List.mem_cons_self)
    rw [splitOn, if_neg (by simpa using differs), ih fun member => absent (List.mem_cons_of_mem c member)]

theorem splitOn_append_cons {separator : Char} {t : Text} (absent : separator ∉ t) (rest : Text) :
    splitOn separator (t ++ separator :: rest) = t :: splitOn separator rest := by
  rw [splitOn_append, splitOn_of_notMem absent, List.singleton_append]

theorem splitOn_flatMap {separator : Char} {ts : List Text} (absent : ∀ t ∈ ts, separator ∉ t) :
    splitOn separator (ts.flatMap (· ++ [separator])) = ts ++ [[]] := by
  induction ts with
  | nil => rfl
  | cons t ts ih =>
    have here := absent t List.mem_cons_self
    have rest := ih fun u member => absent u (List.mem_cons_of_mem t member)
    rw [List.flatMap_cons, List.append_assoc, List.singleton_append, splitOn_append_cons here, rest,
      List.cons_append]

theorem dropCarriageReturn_eq_self {t : Text} (last : t.getLast? ≠ some '\r') :
    dropCarriageReturn t = t := by
  rw [dropCarriageReturn, if_neg last]

/-- Lines that each end with a line feed are the lines of the text. -/
theorem lines_flatMap {ts : List Text} (oneLine : ∀ t ∈ ts, '\n' ∉ t)
    (noReturn : ∀ t ∈ ts, t.getLast? ≠ some '\r') : lines (ts.flatMap (· ++ ['\n'])) = ts := by
  have unchanged : ts.map dropCarriageReturn = ts :=
    (List.map_congr_left fun t member => dropCarriageReturn_eq_self (noReturn t member)).trans
      (List.map_id ts)
  simp only [lines, splitOn_flatMap oneLine, List.dropLast_concat, List.getLast?_concat, unchanged,
    List.append_nil]

end CobolAtlas.Text
