/-
# CobolAtlas.Proofs.Source.Insertion -- comments and blank lines are inert

A line is inert when it is a comment or its program text is blank (`IsInert`).  One inert line more moves the
lines below it by one and changes nothing else (`ofSource_insert`): it is no code line, so the code lines are
those of before under other numbers (`codeLines_insert`), and what a code line reports does not depend on its
number (`lineEvents_renumber`).  Whether a sentence starts is settled by the code line before, which an inert line
does not come between.
-/
import CobolAtlas.Proofs.Source.Relabelling
import CobolAtlas.Proofs.Text.Ends

namespace CobolAtlas

set_option autoImplicit false

/-- The lines after the first `k` move by one, and all names stay. -/
def Relabelling.insertion (k : Nat) : Relabelling := ⟨id, fun l => if k < l.toNat then l + 1 else l⟩

namespace Source

open Text

/-- A comment, or a line whose program text is blank. -/
def IsInert (line : Text) : Prop := ∀ area, codeArea line = some area → ∀ c ∈ area, isBlank c = true

/-- The second text has the lines of the first and one line more, after the first `k` lines. -/
def Inserted (k : Nat) (line text text' : Text) : Prop :=
  lines text' = (lines text).take k ++ line :: (lines text).drop k

/-! ## Lines of a text -/

theorem IsInert.code?_eq_none {line : Text} (inert : IsInert line) : code? line = none := by
  rw [code?]
  cases area : codeArea line with
  | none => rfl
  | some blank =>
    have nothing : trim blank = [] := by
      have start : trimStart blank = [] := List.dropWhile_eq_nil_iff.2 (inert blank area)
      rw [trim, start]
      rfl
    rw [Option.bind_some, nothing]
    rfl

/-- Lines that each end with a carriage return and a line feed are the lines of the text. -/
theorem lines_flatMap_return {ts : List Text} (oneLine : ∀ t ∈ ts, '\n' ∉ t) :
    lines (ts.flatMap fun t => t ++ ['\r', '\n']) = ts := by
  have ended : (ts.flatMap fun t => t ++ ['\r', '\n']) = (ts.map (· ++ ['\r'])).flatMap (· ++ ['\n']) := by
    simp [List.flatMap_map]
  have absent : ∀ t ∈ ts.map (· ++ ['\r']), '\n' ∉ t := by
    intro t member
    obtain ⟨u, old, rfl⟩ := List.mem_map.1 member
    simp [oneLine u old]
  have dropped : (ts.map (· ++ ['\r'])).map dropCarriageReturn = ts := by
    rw [List.map_map]
    exact (List.map_congr_left fun t _ => by simp [dropCarriageReturn]).trans (List.map_id ts)
  simp only [ended, lines, splitOn_flatMap absent, List.dropLast_concat, List.getLast?_concat, dropped, List.append_nil]

/-- No line has a line feed. -/
theorem notMem_of_mem_lines {t line : Text} (member : line ∈ lines t) : '\n' ∉ line := by
  simp only [lines] at member
  rcases List.mem_append.1 member with ended | last
  · obtain ⟨piece, old, rfl⟩ := List.mem_map.1 ended
    have absent : '\n' ∉ piece := notMem_of_mem_splitOn (List.dropLast_subset _ old)
    rw [dropCarriageReturn]
    split
    · exact fun inside => absent (List.dropLast_subset _ inside)
    · exact absent
  · split at last
    · rename_i c rest whole
      rw [List.mem_singleton.1 last]
      exact notMem_of_mem_splitOn (List.mem_of_getLast? whole)
    · exact absurd last List.not_mem_nil

/-! ## Numbers of code lines -/

theorem numberedCode_append (first : Nat) (before after : List Text) :
    numberedCode first (before ++ after) = numberedCode first before ++ numberedCode (first + before.length) after := by
  induction before generalizing first with
  | nil => rfl
  | cons line before ih =>
    have next : first + 1 + before.length = first + (line :: before).length := by rw [List.length_cons]; omega
    rw [List.cons_append, numberedCode, ih, next, numberedCode, List.append_assoc]

theorem numberedCode_succ (first : Nat) (lines : List Text) :
    numberedCode (first + 1) lines = (numberedCode first lines).map fun c => (c.1 + 1, c.2) := by
  induction lines generalizing first with
  | nil => rfl
  | cons line lines ih =>
    have next : UInt32.ofNat (first + 1) = UInt32.ofNat first + 1 := UInt32.ofNat_add first 1
    rw [numberedCode, numberedCode, ih, next, List.map_append]
    cases code? line <;> rfl

/-- Up to line `k` numbers stay, and below it they are one more. -/
theorem insertion_line {k n : Nat} (few : n < 2 ^ 32) :
    (Relabelling.insertion k).line (UInt32.ofNat n) = if k < n then UInt32.ofNat n + 1 else UInt32.ofNat n := by
  show (if k < (UInt32.ofNat n).toNat then _ else _) = _
  rw [toNat_number few]

/-- With one inert line more the code lines are the same under other numbers. -/
theorem codeLines_insert {k : Nat} {line text text' : Text} (inert : IsInert line)
    (inserted : Inserted k line text text') (few : (lines text).length < 2 ^ 32 - 1) :
    codeLines text' = (codeLines text).map fun c => ((Relabelling.insertion k).line c.1, c.2) := by
  have whole : lines text = (lines text).take k ++ (lines text).drop k := (List.take_append_drop k _).symm
  have long : ((lines text).take k).length = min k (lines text).length := List.length_take
  have rest : ((lines text).drop k).length = (lines text).length - k := List.length_drop
  rw [codeLines, inserted, codeLines]
  nth_rewrite 3 [whole]
  generalize (lines text).take k = before at long
  generalize (lines text).drop k = after at rest
  have silent : numberedCode (1 + before.length) (line :: after) = numberedCode (1 + before.length + 1) after := by
    rw [numberedCode, inert.code?_eq_none]
    rfl
  rw [numberedCode_append, numberedCode_append, silent, numberedCode_succ (1 + before.length), List.map_append]
  congr 1
  · refine (List.map_id _).symm.trans (List.map_congr_left fun c member => ?_)
    obtain ⟨n, number, low, high⟩ := number_of_mem_numberedCode member
    rw [number, insertion_line (by omega), if_neg (by omega), ← number]
    rfl
  · refine List.map_congr_left fun c member => ?_
    obtain ⟨n, number, low, high⟩ := number_of_mem_numberedCode member
    rw [number, insertion_line (by omega), if_pos (by omega)]

/-! ## Programs -/

@[simp] theorem insertion_name (k : Nat) (name : Text) : (Relabelling.insertion k).name name = name := rfl

theorem insertion_lawful {k : Nat} {bound : LineNumber} (few : bound.toNat < 2 ^ 32 - 1) :
    (Relabelling.insertion k).Lawful bound where
  clean := by simp
  ofDivision := by simp
  ofSection := by simp
  isEmpty := by simp
  line := fun l m le within => by
    rw [UInt32.le_iff_toNat_le] at le within ⊢
    have shifted : ∀ n : LineNumber, n ≤ bound → ((Relabelling.insertion k).line n).toNat =
        if k < n.toNat then n.toNat + 1 else n.toNat := by
      intro n small
      rw [UInt32.le_iff_toNat_le] at small
      show (if k < n.toNat then n + 1 else n).toNat = _
      split
      · rw [UInt32.toNat_add]
        exact Nat.mod_eq_of_lt (by show n.toNat + 1 < 2 ^ 32; omega)
      · rfl
    rw [shifted l (UInt32.le_iff_toNat_le.2 (Nat.le_trans le within)), shifted m (UInt32.le_iff_toNat_le.2 within)]
    split <;> split <;> omega

/-- **Comments and blank lines are inert.**  Into every text an inert line can be put after any number of lines.
The program of the new text is that of the old one, where the number of every recorded line below the new one is
greater by one. -/
theorem ofSource_insert (path : Path) (text : Text) (k : Nat) {line : Text} (oneLine : '\n' ∉ line)
    (inert : IsInert line) (few : (lines text).length < 2 ^ 32 - 1) :
    (∃ text', Inserted k line text text') ∧
      ∀ text', Inserted k line text text' →
        Program.ofSource path text' = (Program.ofSource path text).relabel (Relabelling.insertion k) := by
  constructor
  · refine ⟨((lines text).take k ++ line :: (lines text).drop k).flatMap fun t => t ++ ['\r', '\n'],
      lines_flatMap_return fun t member => ?_⟩
    rcases List.mem_append.1 member with above | below
    · exact notMem_of_mem_lines (List.mem_of_mem_take above)
    · rcases List.mem_cons.1 below with rfl | below
      · exact oneLine
      · exact notMem_of_mem_lines (List.mem_of_mem_drop below)
  · intro text' inserted
    have last : (UInt32.ofNat (lines text).length).toNat = (lines text).length := toNat_number (by omega)
    have zero : (Relabelling.insertion k).line 0 = 0 := by simp [Relabelling.insertion]
    refine ofSource_relabel (insertion_lawful (last.symm ▸ few)) zero path id
      (codeLines_insert inert inserted few) (fun c _ => readsAs_self (insertion_name k) c.2) fun c member => ?_
    obtain ⟨n, number, low, high⟩ := number_of_mem_numberedCode member
    rw [number, UInt32.le_iff_toNat_le, last, toNat_number (by omega)]
    omega

/-- A paragraph whose sentence goes over two lines. -/
def spread : Text :=
  joinWith ['\n'] (["       PROCEDURE DIVISION.", "       MAIN-PARA.", "           PERFORM", "               NEXT-PARA.",
    "       NEXT-PARA.", "           GOBACK."].map String.toList)

/-- The same text with a CALL made a comment inside that sentence. -/
def spreadNoted : Text :=
  joinWith ['\n'] (["       PROCEDURE DIVISION.", "       MAIN-PARA.", "           PERFORM", "      *    CALL 'OLD'.",
    "               NEXT-PARA.", "       NEXT-PARA.", "           GOBACK."].map String.toList)

/-- The comment ends no sentence: the line below it opens no paragraph, in either text. -/
theorem ofSource_insert_comment :
    IsInert "      *    CALL 'OLD'.".toList ∧ Inserted 3 "      *    CALL 'OLD'.".toList spread spreadNoted ∧
      (Program.ofSource ⟨"/src/spread.cbl".toList⟩ spread).paragraphs.map (fun p => (p.line, p.endLine)) =
        [(2, 4), (5, 6)] ∧
      Program.ofSource ⟨"/src/spread.cbl".toList⟩ spreadNoted =
        (Program.ofSource ⟨"/src/spread.cbl".toList⟩ spread).relabel (Relabelling.insertion 3) := by
  have oneLine : '\n' ∉ "      *    CALL 'OLD'.".toList := by decide
  have comment : codeArea "      *    CALL 'OLD'.".toList = none := by decide +kernel
  have inert : IsInert "      *    CALL 'OLD'.".toList := fun _ found => nomatch comment.symm.trans found
  have few : (lines spread).length < 2 ^ 32 - 1 := by decide +kernel
  have inserted : Inserted 3 "      *    CALL 'OLD'.".toList spread spreadNoted := by unfold Inserted; decide +kernel
  exact ⟨inert, inserted, by decide +kernel,
    (ofSource_insert ⟨"/src/spread.cbl".toList⟩ spread 3 oneLine inert few).2 spreadNoted inserted⟩

end Source

end CobolAtlas
