/-
# CobolAtlas.Proofs.Path.Normal -- paths in normal form

A path in normal form is written from the root as a row of names, with single separators and neither `.` nor `..`
(`IsNormal`).  Its steps are the root and its names, so that two such paths of the same steps are one path
(`IsNormal.eq_of_components`), and its parent is in normal form again (`IsNormal.parent`).
-/
import CobolAtlas.FileSystem.Basic
import CobolAtlas.Proofs.Path.Components

namespace CobolAtlas.Path

set_option autoImplicit false

open Text FileSystem

/-- The path is written from the root, name by name. -/
def IsNormal (p : Path) : Prop := ∃ names : List Text, (∀ n ∈ names, IsName n) ∧ p = pathOf names

section

variable {names : List Text} (areNames : ∀ n ∈ names, IsName n)

include areNames

theorem components_pathOf : (pathOf names).components = .root :: namesOf names := by
  by_cases none : names = []
  · rw [none]
    rfl
  · exact components_below_names ⟨['/']⟩ none areNames

theorem isRow_of_names : IsRow names := isRow_of_pieces fun n member => (areNames n member).toIsPiece

end

theorem parent_pathOf {dir : List Text} {n : Text} (areNames : ∀ m ∈ dir ++ [n], IsName m) :
    (pathOf (dir ++ [n])).parent = some (pathOf dir) := by
  have start : IsStart ['/'] := .inr ⟨[], rfl⟩
  obtain ⟨inDir, last⟩ := List.forall_mem_append.1 areNames
  have isPiece : IsPiece n := (last n (List.mem_singleton_self n)).toIsPiece
  have pieces : dropIdle (pathOf (dir ++ [n])).pieces = dir.map piece ++ [piece n] :=
    dropIdle_within start (isRow_of_names inDir) isPiece
  have above : dropIdle (dir.map piece) = dir.map piece := by
    rcases List.eq_nil_or_concat' dir with rfl | ⟨before, m, rfl⟩
    · rfl
    · rw [List.map_append, List.map_singleton]
      exact dropIdle_concat _ (isSome_componentOf (inDir m (by simp)).toIsPiece)
  have texts : (dir.map piece).map (·.1) = dir := by
    rw [List.map_map]
    exact List.map_id dir
  rw [parent]
  split
  · rename_i none
    rw [pieces] at none
    simp at none
  · rw [pieces, List.dropLast_concat, above, ofPieces, texts]
    rfl

section

variable {p q : Path}

theorem IsNormal.eq_of_components (normal : p.IsNormal) (normal' : q.IsNormal) (same : p.components = q.components) :
    p = q := by
  obtain ⟨names, areNames, rfl⟩ := normal
  obtain ⟨names', areNames', rfl⟩ := normal'
  rw [components_pathOf areNames, components_pathOf areNames', List.cons_inj_right, namesOf_inj] at same
  rw [same]

theorem IsNormal.parent (normal : p.IsNormal) (up : p.parent = some q) : q.IsNormal := by
  obtain ⟨names, areNames, rfl⟩ := normal
  rcases List.eq_nil_or_concat' names with rfl | ⟨dir, n, rfl⟩
  · cases up
  · rw [parent_pathOf areNames, Option.some.injEq] at up
    exact ⟨dir, (List.forall_mem_append.1 areNames).1, up.symm⟩

end

end CobolAtlas.Path
