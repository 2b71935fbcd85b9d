/-
# CobolAtlas.Proofs.Path.Parent -- the path above a path

The first pieces of a path, written again, are a path whose components are those of the pieces
(`components_ofPieces`).  So `parent` takes off the last component (`components_of_parent`), and a path without a
parent has no component but the root (`components_of_parent_eq_none`).
-/
import CobolAtlas.Proofs.Path.Pieces
import Mathlib.Data.List.DropRight

namespace CobolAtlas

set_option autoImplicit false

open Text

namespace Text

variable {separator : Char}

/-- What the first pieces join to comes first in what all pieces join to. -/
theorem joinWith_starts (pieces more : List Text) :
    joinWith [separator] pieces <+: joinWith [separator] (pieces ++ more) := by
  by_cases none : pieces = []
  · rw [none]
    exact List.nil_prefix
  · by_cases noneMore : more = []
    · exact ⟨[], by rw [List.append_nil, noneMore, List.append_nil]⟩
    · rw [joinWith_append none noneMore]
      exact List.prefix_append _ _

end Text

namespace Path

/-! ## Pieces written again -/

theorem filterMap_dropIdle (ps : List (Text × Option Component)) :
    (dropIdle ps).filterMap (·.2) = ps.filterMap (·.2) := by
  have parts : dropIdle ps ++ ps.rtakeWhile (·.2.isNone) = ps := List.rdropWhile_append_rtakeWhile
  have idle : (ps.rtakeWhile (·.2.isNone)).filterMap (·.2) = [] := by
    rw [List.filterMap_eq_nil_iff]
    intro p member
    exact Option.isNone_iff_eq_none.1 (List.mem_rtakeWhile_imp (p := fun p : Text × Option Component => p.2.isNone) member)
  calc (dropIdle ps).filterMap (·.2)
      = (dropIdle ps ++ ps.rtakeWhile (·.2.isNone)).filterMap (·.2) := by
        rw [List.filterMap_append, idle, List.append_nil]
    _ = ps.filterMap (·.2) := by rw [parts]

theorem dropIdle_starts (ps : List (Text × Option Component)) : dropIdle ps <+: ps :=
  List.rdropWhile_prefix (fun p : Text × Option Component => p.2.isNone) ps

theorem ofSplit_take (leading : Bool) (xs : List Text) (n : Nat) :
    (ofSplit leading xs).take n = ofSplit leading (xs.take n) := by
  cases xs with
  | nil => simp [ofSplit]
  | cons x xs =>
    cases n with
    | zero => rfl
    | succ n => rw [ofSplit, List.take_succ_cons, List.take_succ_cons, ofSplit, List.map_take]

/-- Written again, the first pieces of a path take the steps that they stand for. -/
theorem components_ofPieces {p : Path} {ps : List (Text × Option Component)} (first : ps <+: p.pieces) :
    (ofPieces p.isAbsolute ps).components = p.rootComponents ++ ps.filterMap (·.2) := by
  -- the pieces are those of the first texts between separators
  obtain ⟨ys, rfl, start, noSlash⟩ : ∃ ys, ps = ofSplit (!p.isAbsolute) ys ∧ joinWith ['/'] ys <+: p.body ∧
      ∀ y ∈ ys, '/' ∉ y := by
    have split := List.prefix_iff_eq_take.1 first
    rw [pieces_eq_ofSplit, ofSplit_take] at split
    refine ⟨_, split, ?_, fun y member => notMem_of_mem_splitOn (List.mem_of_mem_take member)⟩
    have parts : joinWith ['/'] ((splitOn '/' p.body).take ps.length) <+:
        joinWith ['/'] ((splitOn '/' p.body).take ps.length ++ (splitOn '/' p.body).drop ps.length) :=
      joinWith_starts _ _
    rwa [List.take_append_drop, joinWith_splitOn p.body] at parts
  have text : ofPieces p.isAbsolute (ofSplit (!p.isAbsolute) ys) =
      ⟨(if p.isAbsolute then ['/'] else []) ++ joinWith ['/'] ys⟩ := by
    rw [ofPieces, map_fst_ofSplit]
  -- they begin as the path does
  have absolute : (ofPieces p.isAbsolute (ofSplit (!p.isAbsolute) ys)).isAbsolute = p.isAbsolute := by
    rw [text]
    cases isAbsolute_ : p.isAbsolute with
    | true => rfl
    | false =>
      obtain ⟨rest, body⟩ := start
      rw [Path.body, isAbsolute_, if_neg Bool.false_ne_true] at body
      cases joined : joinWith ['/'] ys with
      | nil => rfl
      | cons c t =>
        have head : p.text.head? = some c := by rw [← body, joined]; rfl
        rw [isAbsolute, head] at isAbsolute_
        exact isAbsolute_
  have body : (ofPieces p.isAbsolute (ofSplit (!p.isAbsolute) ys)).body = joinWith ['/'] ys := by
    rw [Path.body, absolute, text]
    cases p.isAbsolute <;> rfl
  have roots : (ofPieces p.isAbsolute (ofSplit (!p.isAbsolute) ys)).rootComponents = p.rootComponents := by
    rw [rootComponents, absolute, rootComponents]
  rw [components, roots, pieces_eq_ofSplit, absolute, body]
  congr 1
  by_cases none : ys = []
  · rw [none]
    rfl
  · rw [splitOn_joinWith none noSlash]

/-! ## Parents -/

theorem components_of_parent {p q : Path} (up : p.parent = some q) : ∃ c, p.components = q.components ++ [c] := by
  unfold parent at up
  split at up
  · cases up
  · rename_i more
    obtain rfl := Option.some.inj up
    have counts := List.rdropWhile_last_not (fun x : Text × Option Component => x.2.isNone) p.pieces more
    obtain ⟨c, last⟩ : ∃ c, ((dropIdle p.pieces).getLast more).2 = some c :=
      Option.ne_none_iff_exists'.1 fun none => counts (Option.isNone_iff_eq_none.2 none)
    have before : dropIdle (dropIdle p.pieces).dropLast <+: p.pieces :=
      ((dropIdle_starts _).trans (List.dropLast_prefix _)).trans (dropIdle_starts _)
    refine ⟨c, ?_⟩
    rw [components_ofPieces before, filterMap_dropIdle, components, ← filterMap_dropIdle p.pieces, List.append_assoc]
    congr 1
    have parts : dropIdle p.pieces = (dropIdle p.pieces).dropLast ++ [(dropIdle p.pieces).getLast more] :=
      (List.dropLast_append_getLast more).symm
    have lastOf : List.filterMap (fun x : Text × Option Component => x.2) [(dropIdle p.pieces).getLast more] = [c] := by
      simp [last]
    rw [← lastOf, ← List.filterMap_append, ← parts]

theorem components_of_parent_eq_none {p : Path} (top : p.parent = none) : p.components = p.rootComponents := by
  unfold parent at top
  split at top
  · rename_i none
    rw [components, ← filterMap_dropIdle, none, List.filterMap_nil, List.append_nil]
  · cases top

/-- A path without a parent has no component above its last. -/
theorem length_components_of_parent_eq_none {p : Path} (top : p.parent = none) : p.components.length ≤ 1 := by
  rw [components_of_parent_eq_none top, rootComponents]
  split <;> simp

end Path

end CobolAtlas
