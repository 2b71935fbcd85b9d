/-
# CobolAtlas.Proofs.Path.Extension -- the last name of a path and its extension

Of a path that ends in a name with an extension, what is before the extension can be cut out
(`withoutExtension_within`), and another extension takes the place of the old one (`withExtension_within`).
Only the name `..b` keeps nothing: its stem is a dot, and what is left of the path leads to the directory above.
What is joined to a path stands behind its start (`join_of_relative`, `foldl_join`).
-/
import CobolAtlas.Proofs.Path.Pieces
import Mathlib.Data.List.TakeWhile

namespace CobolAtlas.Path

set_option autoImplicit false

open Text

/-! ## Names cut at their last dot -/

theorem splitName_append {stem ext : Text} (nonempty : stem ≠ []) (noDot : '.' ∉ ext) :
    splitName (stem ++ '.' :: ext) = (stem, some ext) := by
  have notDot : ∀ c ∈ ext.reverse, (c != '.') = true := fun c member => by
    simpa using fun same : c = '.' => noDot (same ▸ List.mem_reverse.1 member)
  have reversed : (stem ++ '.' :: ext).reverse = ext.reverse ++ '.' :: stem.reverse := by simp
  rw [splitName, reversed, List.dropWhile_append_of_pos notDot, List.takeWhile_append_of_pos notDot]
  simp [nonempty]

/-- A name with an extension is its stem, a dot and the extension. -/
structure Splits (n stem ext : Text) : Prop where
  whole : n = stem ++ '.' :: ext
  nonempty : stem ≠ []
  noDot : '.' ∉ ext

theorem splits_of_extension {n ext : Text} (cut : (splitName n).2 = some ext) : ∃ stem, Splits n stem ext := by
  rw [splitName] at cut
  split at cut
  · cases cut
  rename_i nonempty
  have extension : (n.reverse.takeWhile (· != '.')).reverse = ext := Option.some.inj cut
  have parts : n.reverse.takeWhile (· != '.') ++ n.reverse.dropWhile (· != '.') = n.reverse :=
    List.takeWhile_append_dropWhile
  cases rest : n.reverse.dropWhile (· != '.') with
  | nil => simp [rest] at nonempty
  | cons d stem =>
    have dot : d = '.' := by
      have stops := List.head?_dropWhile_not (· != '.') n.reverse
      rw [rest] at stops
      simpa using stops
    refine ⟨stem.reverse, ?_, by simpa [rest] using nonempty, ?_⟩
    · rw [← List.reverse_reverse n, ← parts, rest, dot, List.reverse_append, List.reverse_cons, extension,
        List.append_assoc, List.singleton_append]
    · rw [← extension, List.mem_reverse]
      intro member
      have notDot : ('.' != '.') = true := List.mem_takeWhile_imp (p := (· != '.')) member
      cases notDot

theorem Splits.splitName_eq {n stem ext : Text} (splits : Splits n stem ext) : splitName n = (stem, some ext) := by
  rw [splits.whole, splitName_append splits.nonempty splits.noDot]

theorem splitName_of_none {n : Text} (whole : (splitName n).2 = none) : (splitName n).1 = n := by
  rw [splitName] at whole ⊢
  split
  · rfl
  · rename_i nonempty
    rw [if_neg nonempty] at whole
    cases whole

theorem stem_of_isName {n : Text} (isName : IsName n) : (splitName n).1 ≠ [] ∧ '/' ∉ (splitName n).1 := by
  cases cut : (splitName n).2 with
  | none =>
    rw [splitName_of_none cut]
    exact ⟨isName.nonempty, isName.noSlash⟩
  | some ext =>
    obtain ⟨stem, splits⟩ := splits_of_extension cut
    rw [splits.splitName_eq]
    exact ⟨splits.nonempty, fun member => isName.noSlash (splits.whole ▸ List.mem_append_left _ member)⟩

/-! ## Paths that end in a name -/

section Last

variable {w : Text} {dir : List Text} {n stem ext : Text}

theorem dropIdle_concat (ps : List (Text × Option Component)) {p : Text × Option Component}
    (counts : p.2.isSome = true) :
    dropIdle (ps ++ [p]) = ps ++ [p] := by
  have first : p.2.isNone = false := by simpa using counts
  rw [dropIdle, List.reverse_append, List.reverse_singleton, List.singleton_append, List.dropWhile_cons, first]
  simp

/-- The pieces of a path that ends in a piece that counts. -/
theorem dropIdle_within (start : IsStart w) (row : IsRow dir) (isPiece : IsPiece n) :
    dropIdle (⟨w ++ joinWith ['/'] (dir ++ [n])⟩ : Path).pieces = startPieces w ++ dir.map piece ++ [piece n] := by
  rw [pieces_within start (by simp) (row.concat isPiece), List.map_append, ← List.append_assoc]
  exact dropIdle_concat _ (isSome_componentOf isPiece)

theorem fileName_within (start : IsStart w) (row : IsRow dir) (isName : IsName n) :
    (⟨w ++ joinWith ['/'] (dir ++ [n])⟩ : Path).fileName = some n := by
  rw [fileName, dropIdle_within start row isName.toIsPiece, List.getLast?_concat, piece,
    componentOf_of_isName isName]

theorem fileName_within_up (start : IsStart w) (row : IsRow dir) :
    (⟨w ++ joinWith ['/'] (dir ++ [['.', '.']])⟩ : Path).fileName = none := by
  have isPiece : IsPiece ['.', '.'] := ⟨by decide, by decide, by decide⟩
  rw [fileName, dropIdle_within start row isPiece, List.getLast?_concat]
  rfl

theorem extension_within (start : IsStart w) (row : IsRow dir) (isName : IsName n) :
    (⟨w ++ joinWith ['/'] (dir ++ [n])⟩ : Path).extension = (splitName n).2 := by
  rw [extension, fileName_within start row isName, Option.bind_some]

/-- What is left when the extension is cut off, the dot kept. -/
theorem withoutExtension_within (start : IsStart w) (row : IsRow dir) (isName : IsName n)
    (splits : Splits n stem ext) :
    (⟨w ++ joinWith ['/'] (dir ++ [n])⟩ : Path).withoutExtension = ⟨w ++ joinWith ['/'] (dir ++ [stem ++ ['.']])⟩ := by
  have ext? : (⟨w ++ joinWith ['/'] (dir ++ [n])⟩ : Path).extension = some ext := by
    rw [extension_within start row isName, splits.splitName_eq]
  have whole : w ++ joinWith ['/'] (dir ++ [n]) = w ++ joinWith ['/'] (dir ++ [stem ++ ['.']]) ++ ext := by
    rw [splits.whole, List.append_assoc, ← joinWith_concat, List.append_assoc, List.singleton_append]
  rw [withoutExtension, ext?]
  simp only
  rw [whole, List.length_append, Nat.add_sub_cancel, List.take_left]

/-- The last piece once the extension is replaced. -/
def replaced (stem ext : Text) : Text := if stem = ['.'] then ['.', '.'] else stem ++ '.' :: ext

/-- The extension is put behind what is before the last dot of the last name. -/
theorem addExtension_within (start : IsStart w) (row : IsRow dir) (isName : IsName n) (ext' : Text) :
    (⟨(ofPieces (⟨w ++ joinWith ['/'] (dir ++ [n])⟩ : Path).isAbsolute
        ((dropIdle (⟨w ++ joinWith ['/'] (dir ++ [n])⟩ : Path).pieces).dropLast ++ [(stem, none)])).text ++
      '.' :: ext'⟩ : Path) = ⟨w ++ joinWith ['/'] (dir ++ [stem ++ '.' :: ext'])⟩ := by
  have before : List.map (fun p : Text × Option Component => p.1) (dir.map piece ++ [(stem, none)]) = dir ++ [stem] := by
    rw [List.map_append, List.map_map]
    exact congrArg (· ++ [stem]) (List.map_id dir)
  rw [dropIdle_within start row isName.toIsPiece, List.dropLast_concat, List.append_assoc,
    isAbsolute_within (by simp) (row.concat isName.toIsPiece), ofPieces_within start (by simp), before, joinWith_concat,
    List.append_assoc]

theorem withExtension_within (start : IsStart w) (row : IsRow dir) (isName : IsName n) (ext' : Text) :
    (⟨w ++ joinWith ['/'] (dir ++ [n])⟩ : Path).withExtension ext' =
      ⟨w ++ joinWith ['/'] (dir ++ [replaced (splitName n).1 ext'])⟩ := by
  -- An equation for `withExtension` takes long to prove, so the definition is put in place as it is.
  delta withExtension
  cases cut : (splitName n).2 with
  | none =>
    have whole : (⟨w ++ joinWith ['/'] (dir ++ [n])⟩ : Path).withoutExtension = ⟨w ++ joinWith ['/'] (dir ++ [n])⟩ := by
      rw [withoutExtension, extension_within start row isName, cut]
    have stem? : (⟨w ++ joinWith ['/'] (dir ++ [n])⟩ : Path).fileStem = some n := by
      rw [fileStem, fileName_within start row isName, Option.map_some, splitName_of_none cut]
    simp only [whole, stem?]
    rw [splitName_of_none cut, replaced, if_neg isName.notCurrent, addExtension_within start row isName]
  | some ext =>
    obtain ⟨stem, splits⟩ := splits_of_extension cut
    have noSlash : '/' ∉ stem := by
      have absent := (stem_of_isName isName).2
      rwa [splits.splitName_eq] at absent
    simp only [withoutExtension_within start row isName splits]
    rw [splits.splitName_eq, replaced]
    by_cases dot : stem = ['.']
    · rw [fileStem, if_pos dot, dot]
      rw [show ['.'] ++ ['.'] = ['.', '.'] from rfl, fileName_within_up start row]
      rfl
    · have isName' : IsName (stem ++ ['.']) := by
        refine ⟨⟨by simp, ?_, ?_⟩, ?_⟩
        · simpa using noSlash
        · simpa using splits.nonempty
        · exact fun same => dot ((List.append_left_inj ['.']).1 same)
      have stem? : (⟨w ++ joinWith ['/'] (dir ++ [stem ++ ['.']])⟩ : Path).fileStem = some stem := by
        rw [fileStem, fileName_within start row isName', Option.map_some,
          splitName_append splits.nonempty List.not_mem_nil]
      simp only [stem?]
      rw [if_neg dot, addExtension_within start row isName']

end Last

/-! ## Paths below a path -/

/-- What stands before the pieces of a path that is joined to `p`. -/
def within (p : Path) : Text := if p.text = [] ∨ p.text.getLast? = some '/' then p.text else p.text ++ ['/']

theorem isStart_within (p : Path) : IsStart p.within := by
  rw [within]
  split
  · rename_i ends
    rcases ends with empty | slash
    · exact .inl empty
    · exact .inr (List.getLast?_eq_some_iff.1 slash)
  · exact .inr ⟨p.text, rfl⟩

theorem isAbsolute_start (p : Path) : (⟨p.within⟩ : Path).isAbsolute = p.isAbsolute := by
  rw [within]
  split
  · rfl
  · rename_i ends
    obtain ⟨c, t, spelled⟩ := List.exists_cons_of_ne_nil (not_or.1 ends).1
    rw [isAbsolute, isAbsolute, spelled]
    rfl

theorem join_of_relative {q : Path} (relative : q.isAbsolute = false) (p : Path) : p.join q = ⟨p.within ++ q.text⟩ := by
  rw [join, relative, if_neg Bool.false_ne_true, within]
  split
  · rfl
  · rw [List.append_assoc]
    rfl

section Below

variable {names : List Text}

theorem isAbsolute_joinWith (more : names ≠ []) (row : IsRow names) :
    (⟨joinWith ['/'] names⟩ : Path).isAbsolute = false := isAbsolute_within (w := []) more row

/-- Names joined one by one are pieces after the start. -/
theorem foldl_join (more : names ≠ []) (arePieces : ∀ n ∈ names, IsPiece n) (p : Path) :
    names.foldl (fun p n => p.join ⟨n⟩) p = ⟨p.within ++ joinWith ['/'] names⟩ := by
  induction names generalizing p with
  | nil => exact absurd rfl more
  | cons n names ih =>
    have isPiece := arePieces n List.mem_cons_self
    have first : p.join ⟨n⟩ = ⟨p.within ++ n⟩ := join_of_relative
      (isAbsolute_joinWith (List.cons_ne_nil n []) (isRow_of_pieces (List.forall_mem_singleton.2 isPiece))) p
    rw [List.foldl_cons, first]
    cases names with
    | nil => rfl
    | cons next names =>
      have last : (p.within ++ n).getLast? ≠ some '/' := by
        rw [List.getLast?_append, List.getLast?_eq_some_getLast isPiece.nonempty, Option.some_or]
        exact fun slash => isPiece.noSlash (Option.some.inj slash ▸ List.getLast_mem isPiece.nonempty)
      have start : (⟨p.within ++ n⟩ : Path).within = p.within ++ n ++ ['/'] := by
        rw [within, if_neg (not_or.2 ⟨by simp [isPiece.nonempty], last⟩)]
      rw [ih (List.cons_ne_nil next names) fun m member => arePieces m (List.mem_cons_of_mem n member), start,
        joinWith_cons n (List.cons_ne_nil next names)]
      simp only [List.append_assoc, List.singleton_append]

/-- The text of a path and a slash has an empty piece more. -/
theorem pieces_slash {t : Text} (nonempty : t ≠ []) :
    (⟨t ++ ['/']⟩ : Path).pieces = (⟨t⟩ : Path).pieces ++ [([], none)] := by
  obtain ⟨c, u, rfl⟩ := List.exists_cons_of_ne_nil nonempty
  have body_slash : (⟨c :: u ++ ['/']⟩ : Path).body = (⟨c :: u⟩ : Path).body ++ ['/'] := by
    show (if (some c == some '/') = true then u ++ ['/'] else c :: u ++ ['/']) =
      (if (some c == some '/') = true then u else c :: u) ++ ['/']
    split <;> rfl
  have split (b : Text) : splitOn '/' (b ++ ['/']) = splitOn '/' b ++ [[]] := splitOn_append b []
  rw [pieces_eq_ofSplit, pieces_eq_ofSplit, body_slash, split, ofSplit_concat_nil (splitOn_ne_nil '/' _)]
  rfl

/-- The start of a path has its components. -/
theorem filterMap_startPieces {p : Path} (nonempty : p.text ≠ []) :
    (startPieces p.within).filterMap (·.2) = p.pieces.filterMap (·.2) := by
  rw [within]
  split
  · rename_i ends
    obtain ⟨u, slash⟩ := List.getLast?_eq_some_iff.1 (ends.resolve_left nonempty)
    cases u with
    | nil =>
      have root : p = ⟨['/']⟩ := congrArg Path.mk slash
      rw [root]
      rfl
    | cons c u =>
      have path : p = ⟨c :: u ++ ['/']⟩ := congrArg Path.mk slash
      rw [path, startPieces, pieces_slash (List.cons_ne_nil c u), List.dropLast_concat, List.filterMap_append]
      simp
  · rw [startPieces, pieces_slash nonempty, List.dropLast_concat]

end Below

end CobolAtlas.Path
