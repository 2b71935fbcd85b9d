/-
# CobolAtlas.Proofs.Path.Pieces -- paths as a start and pieces after it

A text that is empty or ends in a slash can stand before pieces: what follows it are pieces of their own
(`pieces_within`), and cutting or adding pieces there leaves it as it is spelled (`ofPieces_within`).  A path that other
paths are joined to is such a start (`Path.within`).
-/
import CobolAtlas.Path.Basic
import CobolAtlas.Proofs.Text.Ends

namespace CobolAtlas

set_option autoImplicit false

open Text

namespace Text

/-! ## Splitting and joining -/

section Joined

variable {separator : Char} {t u : Text}

theorem joinWith_cons (piece : Text) {pieces : List Text} (more : pieces ≠ []) :
    joinWith [separator] (piece :: pieces) = piece ++ separator :: joinWith [separator] pieces := by
  cases pieces with
  | nil => exact absurd rfl more
  | cons next pieces => simp [joinWith]

theorem joinWith_append {pieces pieces' : List Text} (more : pieces ≠ []) (more' : pieces' ≠ []) :
    joinWith [separator] (pieces ++ pieces') =
      joinWith [separator] pieces ++ separator :: joinWith [separator] pieces' := by
  induction pieces with
  | nil => exact absurd rfl more
  | cons piece pieces ih =>
    cases pieces with
    | nil => exact joinWith_cons piece more'
    | cons next pieces =>
      have nonempty : next :: pieces ≠ [] := List.cons_ne_nil next pieces
      rw [List.cons_append, joinWith_cons piece (by simp), ih nonempty, joinWith_cons piece nonempty, List.append_assoc]
      rfl

/-- The end of the last piece is the end of all. -/
theorem joinWith_concat (pieces : List Text) (t u : Text) :
    joinWith [separator] (pieces ++ [t ++ u]) = joinWith [separator] (pieces ++ [t]) ++ u := by
  cases pieces with
  | nil => rfl
  | cons piece pieces =>
    have nonempty : piece :: pieces ≠ [] := List.cons_ne_nil piece pieces
    rw [joinWith_append nonempty (List.cons_ne_nil _ _), joinWith_append nonempty (List.cons_ne_nil _ _)]
    simp [joinWith]

theorem splitOn_joinWith {pieces : List Text} (more : pieces ≠ []) (absent : ∀ p ∈ pieces, separator ∉ p) :
    splitOn separator (joinWith [separator] pieces) = pieces := by
  induction pieces with
  | nil => exact absurd rfl more
  | cons piece pieces ih =>
    have here := splitOn_of_notMem (absent piece List.mem_cons_self)
    cases pieces with
    | nil => exact here
    | cons next pieces =>
      have nonempty : next :: pieces ≠ [] := List.cons_ne_nil next pieces
      rw [joinWith_cons piece nonempty, splitOn_append, here,
        ih nonempty fun p member => absent p (List.mem_cons_of_mem piece member)]
      rfl

theorem joinWith_splitOn (t : Text) : joinWith [separator] (splitOn separator t) = t := by
  induction t with
  | nil => rfl
  | cons c t ih =>
    rw [splitOn]
    split
    · rename_i same
      rw [joinWith_cons [] (splitOn_ne_nil separator t), ih, beq_iff_eq.1 same]
      rfl
    · cases pieces : splitOn separator t with
      | nil => exact absurd pieces (splitOn_ne_nil separator t)
      | cons piece pieces' =>
        rw [pieces] at ih
        simp only
        cases pieces' with
        | nil => rw [← ih]; rfl
        | cons next pieces' =>
          rw [← ih, joinWith_cons _ (List.cons_ne_nil _ _), joinWith_cons _ (List.cons_ne_nil _ _)]
          rfl

end Joined

end Text

/-! ## Pieces -/

/-- A piece of a path that counts wherever it stands. -/
structure IsPiece (n : Text) : Prop where
  nonempty : n ≠ []
  noSlash : '/' ∉ n
  notCurrent : n ≠ ['.']

/-- A piece that names an entry. -/
structure IsName (n : Text) : Prop extends IsPiece n where
  notParent : n ≠ ['.', '.']

instance (n : Text) : Decidable (IsPiece n) :=
  decidable_of_iff (n ≠ [] ∧ '/' ∉ n ∧ n ≠ ['.'])
    ⟨fun ⟨nonempty, noSlash, notCurrent⟩ => ⟨nonempty, noSlash, notCurrent⟩, fun ⟨nonempty, noSlash, notCurrent⟩ =>
      ⟨nonempty, noSlash, notCurrent⟩⟩

instance (n : Text) : Decidable (IsName n) :=
  decidable_of_iff (IsPiece n ∧ n ≠ ['.', '.'])
    ⟨fun ⟨isPiece, notParent⟩ => ⟨isPiece, notParent⟩, fun isName => ⟨isName.toIsPiece, isName.notParent⟩⟩

namespace Path

/-- A piece with its component. -/
def piece (n : Text) : Text × Option Component := (n, componentOf false n)

theorem componentOf_of_isPiece {n : Text} (isPiece : IsPiece n) (leading : Bool) :
    componentOf leading n = componentOf false n := by
  rw [componentOf, if_neg isPiece.nonempty, if_neg isPiece.notCurrent, componentOf, if_neg isPiece.nonempty,
    if_neg isPiece.notCurrent]

theorem componentOf_of_isName {n : Text} (isName : IsName n) : componentOf false n = some (.name n) := by
  rw [componentOf, if_neg isName.nonempty, if_neg isName.notCurrent, if_neg isName.notParent]

theorem isSome_componentOf {n : Text} (isPiece : IsPiece n) : (componentOf false n).isSome = true := by
  rw [componentOf, if_neg isPiece.nonempty, if_neg isPiece.notCurrent]
  split <;> rfl

/-- Pieces with their components; the first of them may be the current directory where `leading`. -/
def ofSplit (leading : Bool) : List Text → List (Text × Option Component)
  | [] => []
  | first :: rest => (first, componentOf leading first) :: rest.map piece

/-- What is written after the root. -/
def body (p : Path) : Text := if p.isAbsolute then p.text.drop 1 else p.text

theorem pieces_eq_ofSplit (p : Path) : p.pieces = ofSplit (!p.isAbsolute) (splitOn '/' p.body) := by
  rw [pieces, body]
  cases splitOn '/' (if p.isAbsolute = true then p.text.drop 1 else p.text) <;> rfl

/-- Texts that can be written between slashes behind a start: the first of them counts. -/
structure IsRow (ns : List Text) : Prop where
  first : ∀ n ∈ ns.head?, IsPiece n
  noSlash : ∀ n ∈ ns, '/' ∉ n

theorem isRow_of_pieces {ns : List Text} (arePieces : ∀ n ∈ ns, IsPiece n) : IsRow ns where
  first n head := arePieces n (List.mem_of_mem_head? head)
  noSlash n member := (arePieces n member).noSlash

theorem IsRow.concat {ns : List Text} (row : IsRow ns) {n : Text} (isPiece : IsPiece n) : IsRow (ns ++ [n]) where
  first := by
    cases ns with
    | nil =>
      rintro m ⟨⟩
      exact isPiece
    | cons m ns => exact row.first
  noSlash := List.forall_mem_append.2 ⟨row.noSlash, List.forall_mem_singleton.2 isPiece.noSlash⟩

theorem ofSplit_append {leading : Bool} {xs ns : List Text} (row : IsRow ns) :
    ofSplit leading (xs ++ ns) = ofSplit leading xs ++ ns.map piece := by
  cases xs with
  | cons x xs => rw [List.cons_append, ofSplit, List.map_append]; rfl
  | nil =>
    cases ns with
    | nil => rfl
    | cons n ns =>
      show (n, componentOf leading n) :: ns.map piece = piece n :: ns.map piece
      rw [componentOf_of_isPiece (row.first n rfl)]
      rfl

/-- An empty piece at the end is no component. -/
theorem ofSplit_concat_nil {leading : Bool} {xs : List Text} (more : xs ≠ []) :
    ofSplit leading (xs ++ [[]]) = ofSplit leading xs ++ [([], none)] := by
  cases xs with
  | nil => exact absurd rfl more
  | cons x xs => rw [List.cons_append, ofSplit, List.map_append]; rfl

/-- What stands before pieces: nothing, or a text that ends in a slash. -/
def IsStart (w : Text) : Prop := w = [] ∨ ∃ u, w = u ++ ['/']

/-- The pieces of a start; its last piece is what follows its last slash. -/
def startPieces (w : Text) : List (Text × Option Component) := (⟨w⟩ : Path).pieces.dropLast

section Start

variable {w : Text} {ns : List Text}

theorem body_start (start : IsStart w) : IsStart (⟨w⟩ : Path).body := by
  rcases start with rfl | ⟨u, rfl⟩
  · exact .inl rfl
  · cases u with
    | nil => exact .inl rfl
    | cons c u =>
      rw [body]
      split
      · exact .inr ⟨u, rfl⟩
      · exact .inr ⟨c :: u, rfl⟩

theorem head?_joinWith (more : ns ≠ []) (row : IsRow ns) : (joinWith ['/'] ns).head? ≠ some '/' := by
  cases ns with
  | nil => exact absurd rfl more
  | cons n ns =>
    have isPiece := row.first n rfl
    obtain ⟨c, n, rfl⟩ := List.exists_cons_of_ne_nil isPiece.nonempty
    have notSlash : c ≠ '/' := fun same => isPiece.noSlash (same ▸ List.mem_cons_self)
    cases ns with
    | nil => simpa [joinWith] using notSlash
    | cons next ns => simpa [joinWith] using notSlash

theorem isAbsolute_within (more : ns ≠ []) (row : IsRow ns) :
    (⟨w ++ joinWith ['/'] ns⟩ : Path).isAbsolute = (⟨w⟩ : Path).isAbsolute := by
  cases w with
  | nil =>
    have relative := head?_joinWith more row
    simpa [isAbsolute] using relative
  | cons c w => rfl

theorem body_within (start : IsStart w) (more : ns ≠ []) (row : IsRow ns) :
    (⟨w ++ joinWith ['/'] ns⟩ : Path).body = (⟨w⟩ : Path).body ++ joinWith ['/'] ns := by
  rw [body, body, isAbsolute_within more row]
  split
  · rename_i absolute
    cases w with
    | nil => cases absolute
    | cons c w => rfl
  · rfl

/-- After a start, pieces are pieces of the path. -/
theorem pieces_within (start : IsStart w) (more : ns ≠ []) (row : IsRow ns) :
    (⟨w ++ joinWith ['/'] ns⟩ : Path).pieces = startPieces w ++ ns.map piece := by
  have split : splitOn '/' (joinWith ['/'] ns) = ns :=
    splitOn_joinWith more row.noSlash
  rw [startPieces, pieces_eq_ofSplit, pieces_eq_ofSplit, isAbsolute_within more row,
    body_within start more row]
  rcases body_start start with empty | ⟨u, slash⟩
  · rw [empty, List.nil_append, split]
    exact @ofSplit_append (!(⟨w⟩ : Path).isAbsolute) [] ns row
  · rw [slash, List.append_assoc, List.singleton_append, splitOn_append, split, ofSplit_append row,
      splitOn_append]
    show _ = (ofSplit _ (splitOn '/' u ++ [[]])).dropLast ++ _
    rw [ofSplit_concat_nil (splitOn_ne_nil '/' u), List.dropLast_concat]

theorem map_fst_ofSplit (leading : Bool) (xs : List Text) : (ofSplit leading xs).map (·.1) = xs := by
  cases xs with
  | nil => rfl
  | cons x xs =>
    rw [ofSplit, List.map_cons, List.map_map]
    exact congrArg (x :: ·) (List.map_id xs)

/-- Pieces put after a start leave it as it is spelled. -/
theorem ofPieces_within (start : IsStart w) {ps : List (Text × Option Component)} (more : ps ≠ []) :
    ofPieces (⟨w⟩ : Path).isAbsolute (startPieces w ++ ps) = ⟨w ++ joinWith ['/'] (ps.map (·.1))⟩ := by
  have spelled : w = (if (⟨w⟩ : Path).isAbsolute then ['/'] else []) ++ (⟨w⟩ : Path).body := by
    rw [body]
    split
    · rename_i absolute
      cases w with
      | nil => cases absolute
      | cons c w =>
        have slash : c = '/' := by simpa [isAbsolute] using absolute
        rw [slash]
        rfl
    · rfl
  have more' : ps.map (·.1) ≠ [] := by simpa using more
  have texts : (startPieces w ++ ps).map (·.1) = (splitOn '/' (⟨w⟩ : Path).body).dropLast ++ ps.map (·.1) := by
    rw [startPieces, pieces_eq_ofSplit, List.map_append, List.map_dropLast, map_fst_ofSplit]
  have joined : joinWith ['/'] ((startPieces w ++ ps).map (·.1)) =
      (⟨w⟩ : Path).body ++ joinWith ['/'] (ps.map (·.1)) := by
    rw [texts]
    rcases body_start start with empty | ⟨u, slash⟩
    · rw [empty]
      rfl
    · have last : splitOn '/' (u ++ ['/']) = splitOn '/' u ++ [[]] := splitOn_append u []
      rw [slash, last, List.dropLast_concat, joinWith_append (splitOn_ne_nil '/' u) more', joinWith_splitOn,
        List.append_assoc]
      rfl
  rw [ofPieces, joined, ← List.append_assoc, ← spelled]

end Start

end Path

end CobolAtlas
