/-
# CobolAtlas.Proofs.Repository.StructurePath -- where the structure file of a path is

A file that is some names below the root is found again relative to it, so its structure file takes the steps of its
directory below the output directory and one step more (`components_structurePath`).  That step is the stem with the
extension of structure files for every stem but one.  Of `..cbl` the stem is a dot: with the extension cut off the name
is `..`, to which nothing is added, so the last step goes up.  Whatever the stems are, two files share a structure file
where they share the directory and the stem (`structurePath_mirrors_iff`).

A program records what is shown of its file, and its structure file is told by that.  Sources whose names differ only in
what is replaced share one, and so do all of one stem below a root that is no text (`same_structurePath_shown_iff`).
-/
import CobolAtlas.Proofs.Path.Bytes
import CobolAtlas.Proofs.Repository.Sources

namespace CobolAtlas

set_option autoImplicit false

open Text CobolAtlas.Path

/-- The last step to a structure file, by the stem of the source. -/
def structureStep (stem : Text) : Component :=
  if stem = ['.'] then .parent else .name (stem ++ '.' :: structureExtension)

theorem structureStep_inj {stem stem' : Text} : structureStep stem = structureStep stem' ↔ stem = stem' := by
  constructor
  · intro same
    rw [structureStep, structureStep] at same
    split at same <;> split at same
    · rename_i dot dot'
      rw [dot, dot']
    · cases same
    · cases same
    · exact List.append_cancel_right (Component.name.inj same)
  · intro same
    rw [same]

theorem structureStep_eq_name_iff {stem : Text} :
    structureStep stem = .name (stem ++ '.' :: structureExtension) ↔ stem ≠ ['.'] := by
  rw [structureStep]
  split
  · rename_i dot
    exact iff_of_false (fun same => by cases same) (fun differs => differs dot)
  · rename_i notDot
    exact iff_of_true rfl notDot

theorem componentOf_replaced {n : Text} (isName : IsName n) :
    componentOf false (replaced (splitName n).1 structureExtension) = some (structureStep (splitName n).1) := by
  by_cases dot : (splitName n).1 = ['.']
  · rw [replaced, structureStep, if_pos dot, if_pos dot]
    rfl
  · obtain ⟨nonempty, noSlash⟩ := stem_of_isName isName
    rw [replaced, structureStep, if_neg dot, if_neg dot]
    exact componentOf_of_isName (isName_structureName nonempty noSlash)

theorem replaced_inj {n n' : Text} (isName : IsName n) (isName' : IsName n') :
    replaced (splitName n).1 structureExtension = replaced (splitName n').1 structureExtension ↔
      (splitName n).1 = (splitName n').1 := by
  refine ⟨fun same => ?_, fun same => by rw [same]⟩
  have step := componentOf_replaced isName
  rw [same, componentOf_replaced isName'] at step
  exact (structureStep_inj.1 (Option.some.inj step)).symm

section Names

variable {rel rel' : Path} {dir dir' xs : List Text} {n n' : Text}

/-- The extension of structure files stands behind the stem of the last name. -/
theorem withExtension_join (leads : LeadsTo dir n xs) (output : Path) :
    (output.join ⟨joinWith ['/'] (xs ++ [n])⟩).withExtension structureExtension =
      ⟨output.within ++ joinWith ['/'] (xs ++ [replaced (splitName n).1 structureExtension])⟩ := by
  rw [join_of_relative leads.isAbsolute_eq, withExtension_within (isStart_within output) leads.row leads.isName]

theorem components_withExtension_join (leads : LeadsTo dir n xs) (output : Path) :
    ((output.join ⟨joinWith ['/'] (xs ++ [n])⟩).withExtension structureExtension).components =
      output.components ++ namesOf dir ++ [structureStep (splitName n).1] := by
  obtain ⟨nonempty, noSlash⟩ := stem_of_isName leads.isName
  rw [withExtension_join leads,
    components_below output (by simp) (leads.row.concat (isPiece_replaced nonempty noSlash)), List.filterMap_append,
    leads.directory, List.append_assoc]
  simp [componentOf_replaced leads.isName]

theorem namesOf_concat_step_inj (steps : List Component) {stem stem' : Text} :
    steps ++ namesOf dir ++ [structureStep stem] = steps ++ namesOf dir' ++ [structureStep stem'] ↔
      dir = dir' ∧ stem = stem' := by
  rw [List.append_assoc, List.append_assoc, List.append_right_inj]
  constructor
  · intro same
    obtain ⟨directories, last⟩ := List.append_inj' same rfl
    exact ⟨namesOf_inj.1 directories, structureStep_inj.1 (List.singleton_inj.1 last)⟩
  · rintro ⟨rfl, rfl⟩
    rfl

/-- **The structure file takes the steps of the directory, and one more.** -/
theorem components_structurePath (names : rel.components = namesOf (dir ++ [n])) (output root : Path) :
    (structurePath output root (root.join rel)).components =
      output.components ++ namesOf dir ++ [structureStep (splitName n).1] := by
  obtain ⟨xs, found, leads⟩ := relativeTo?_of_components (components_join names root)
  rw [structurePath, found, Option.getD_some, components_withExtension_join leads]

theorem fileStem_join (names : rel.components = namesOf (dir ++ [n])) (root : Path) :
    (root.join rel).fileStem = some (splitName n).1 := by
  have last : (root.join rel).components = (root.components ++ namesOf dir) ++ [.name n] := by
    rw [components_join names, namesOf_concat, List.append_assoc]
  rw [fileStem, fileName_of_components last, Option.map_some]

/-- **Structure files mirror the repository, but for one stem.**  A file that is some names below the root has its
structure file in the same directory below the output directory, named by the stem and the extension of structure files,
exactly if the stem is not a dot.  Where it is, the structure file leads to the directory above instead.  Two files have
one structure file exactly if they are in one directory and have one stem. -/
theorem structurePath_mirrors_iff (names : rel.components = namesOf (dir ++ [n]))
    (names' : rel'.components = namesOf (dir' ++ [n'])) (output root : Path) :
    ∃ stem stem', (root.join rel).fileStem = some stem ∧ (root.join rel').fileStem = some stem' ∧
      (root.join rel).components = root.components ++ namesOf (dir ++ [n]) ∧
      ((structurePath output root (root.join rel)).components =
          output.components ++ namesOf (dir ++ [stem ++ '.' :: structureExtension]) ↔ stem ≠ ['.']) ∧
      (stem = ['.'] →
        (structurePath output root (root.join rel)).components = output.components ++ namesOf dir ++ [.parent]) ∧
      ((structurePath output root (root.join rel)).same (structurePath output root (root.join rel')) = true ↔
        dir = dir' ∧ stem = stem') := by
  refine ⟨_, _, fileStem_join names root, fileStem_join names' root, components_join names root, ?_, ?_, ?_⟩
  · rw [components_structurePath names, namesOf_concat, ← List.append_assoc, List.append_right_inj,
      List.singleton_inj, structureStep_eq_name_iff]
  · intro dot
    rw [components_structurePath names, structureStep, if_pos dot]
  · rw [same_iff, components_structurePath names, components_structurePath names', namesOf_concat_step_inj]

end Names

theorem structurePath_mirrors_iff_payroll :
    (⟨"batch/PAYROLL.cbl".toList⟩ : Path).components = namesOf ["batch".toList, "PAYROLL.cbl".toList] ∧
      (⟨"batch//PAYROLL.CPY".toList⟩ : Path).components = namesOf ["batch".toList, "PAYROLL.CPY".toList] ∧
      (structurePath ⟨"/out".toList⟩ ⟨"/repo".toList⟩ ⟨"/repo/batch/PAYROLL.cbl".toList⟩).components =
        (⟨"/out/batch/PAYROLL.structure.json".toList⟩ : Path).components ∧
      (structurePath ⟨"/out".toList⟩ ⟨"/repo".toList⟩ ⟨"/repo/batch/PAYROLL.cbl".toList⟩).same
        (structurePath ⟨"/out".toList⟩ ⟨"/repo".toList⟩ ⟨"/repo/batch//PAYROLL.CPY".toList⟩) = true := by
  have names : (⟨"batch/PAYROLL.cbl".toList⟩ : Path).components = namesOf ["batch".toList, "PAYROLL.cbl".toList] := rfl
  have names' : (⟨"batch//PAYROLL.CPY".toList⟩ : Path).components = namesOf ["batch".toList, "PAYROLL.CPY".toList] := rfl
  obtain ⟨stem, stem', isStem, isStem', -, mirrors, -, shared⟩ :=
    @structurePath_mirrors_iff _ _ ["batch".toList] ["batch".toList] _ _ names names' ⟨"/out".toList⟩ ⟨"/repo".toList⟩
  have stems : (⟨"/repo/batch/PAYROLL.cbl".toList⟩ : Path).fileStem = some "PAYROLL".toList := rfl
  have stems' : (⟨"/repo/batch//PAYROLL.CPY".toList⟩ : Path).fileStem = some "PAYROLL".toList := rfl
  obtain rfl := Option.some.inj (isStem.symm.trans stems)
  obtain rfl := Option.some.inj (isStem'.symm.trans stems')
  exact ⟨names, names', mirrors.2 (by decide), shared.2 ⟨rfl, rfl⟩⟩

/-- The structure file of `..cbl` would be the directory above the output directory. -/
theorem structurePath_up :
    (⟨"..cbl".toList⟩ : Path).components = namesOf ["..cbl".toList] ∧
      (⟨"/repo/..cbl".toList⟩ : Path).fileStem = some ".".toList ∧
      structurePath ⟨"/out".toList⟩ ⟨"/repo".toList⟩ ((⟨"/repo".toList⟩ : Path).join ⟨"..cbl".toList⟩) =
        ⟨"/out/..".toList⟩ ∧
      (structurePath ⟨"/out".toList⟩ ⟨"/repo".toList⟩ ((⟨"/repo".toList⟩ : Path).join ⟨"..cbl".toList⟩)).components ≠
        (⟨"/out/..structure.json".toList⟩ : Path).components := by
  decide +kernel

/-! ## Structure files by what is shown -/

/-- The directory of a structure file below the output directory.  A source is looked for below the root by what is
shown of it, and below a root that is no text nothing is found: there the name alone counts. -/
def structureDirectory (root : Path) (dir : List Text) : List Text := if root.IsText then dir.map shownText else []

/-- Do two sources have one structure file?  The stems of their names are shown alike, and so are their directories;
where the root is no text, the directories do not count. -/
def SharesStructure (root a b : Path) : Prop :=
  a.shown.fileStem = b.shown.fileStem ∧
    (root.IsText → a.shown.parent.map Path.components = b.shown.parent.map Path.components)

instance (root a b : Path) : Decidable (SharesStructure root a b) := inferInstanceAs (Decidable (_ ∧ (_ → _)))

section Shown

variable {root p q : Path} {dir dir' : List Text} {n n' : Text}

theorem components_shown_below (below : p.components = root.components ++ namesOf (dir ++ [n])) :
    p.shown.components = root.shown.components ++ namesOf (dir.map shownText ++ [shownText n]) := by
  have names : (namesOf (dir ++ [n])).map Component.shown = namesOf (dir.map shownText ++ [shownText n]) := by
    rw [namesOf, namesOf, List.map_map, ← List.map_singleton, ← List.map_append, List.map_map]
    rfl
  rw [components_shown, below, List.map_append, names, components_shown]

/-- The structure file of a source, with the pieces that lead to it. -/
theorem exists_structurePath_shown (below : p.components = root.components ++ namesOf (dir ++ [n])) (output : Path) :
    ∃ xs, LeadsTo (structureDirectory root dir) (shownText n) xs ∧
      structurePath output root p.shown =
        (output.join ⟨joinWith ['/'] (xs ++ [shownText n])⟩).withExtension structureExtension := by
  obtain ⟨-, -, ⟨-, isName, -⟩⟩ := relativeTo?_of_components below
  have steps := components_shown_below below
  by_cases isText : root.IsText
  · rw [isText] at steps
    obtain ⟨xs, found, leads⟩ := relativeTo?_of_components steps
    refine ⟨xs, ?_, by rw [structurePath, found, Option.getD_some]⟩
    rwa [structureDirectory, if_pos isText]
  · -- What is shown of the source has the steps of what is shown of the root, and these are others.
    have outside : p.shown.relativeTo? root = none := by
      rw [relativeTo?, if_neg]
      intro starts
      obtain ⟨rest, same⟩ := startsWith_iff.1 starts
      rw [steps] at same
      have length : root.components.length = root.shown.components.length := by rw [components_shown, List.length_map]
      exact isText (isText_iff.2 (((components_shown root).symm.trans (List.append_inj same length).1.symm)))
    have last : p.shown.components = root.shown.components ++ namesOf (dir.map shownText) ++ [.name (shownText n)] := by
      rw [steps, namesOf_concat, List.append_assoc]
    refine ⟨[], ⟨isRow_of_pieces (List.forall_mem_nil _), isName_shownText isName, ?_⟩, ?_⟩
    · rw [structureDirectory, if_neg isText]
      rfl
    · rw [structurePath, outside, Option.getD_none, fileName_of_components last]
      rfl

theorem sharesStructure_iff (below : p.components = root.components ++ namesOf (dir ++ [n]))
    (below' : q.components = root.components ++ namesOf (dir' ++ [n'])) :
    SharesStructure root p q ↔ structureDirectory root dir = structureDirectory root dir' ∧
      (splitName (shownText n)).1 = (splitName (shownText n')).1 := by
  have stem {p : Path} {dir : List Text} {n : Text} (below : p.components = root.components ++ namesOf (dir ++ [n])) :
      p.shown.fileStem = some (splitName (shownText n)).1 := by
    have last := components_shown_below below
    rw [namesOf_concat, ← List.append_assoc] at last
    rw [fileStem, fileName_of_components last, Option.map_some]
  have directory {p : Path} {dir : List Text} {n : Text}
      (below : p.components = root.components ++ namesOf (dir ++ [n])) :
      p.shown.parent.map Path.components = some (root.shown.components ++ namesOf (dir.map shownText)) := by
    have last := components_shown_below below
    rw [namesOf_concat, ← List.append_assoc] at last
    obtain ⟨q, up, steps⟩ := exists_parent_of_components last
    rw [up, Option.map_some, steps]
  rw [SharesStructure, stem below, stem below', directory below, directory below', Option.some_inj, Option.some_inj,
    List.append_right_inj, namesOf_inj, structureDirectory, structureDirectory, and_comm]
  split
  · rename_i isText
    simp [isText]
  · rename_i notText
    simp [notText]

/-- Two sources below a root have one structure file exactly if they share it. -/
theorem same_structurePath_shown_iff (below : p.components = root.components ++ namesOf (dir ++ [n]))
    (below' : q.components = root.components ++ namesOf (dir' ++ [n'])) (output : Path) :
    (structurePath output root p.shown).same (structurePath output root q.shown) = true ↔ SharesStructure root p q := by
  obtain ⟨xs, leads, path⟩ := exists_structurePath_shown below output
  obtain ⟨xs', leads', path'⟩ := exists_structurePath_shown below' output
  rw [same_iff, path, path', components_withExtension_join leads, components_withExtension_join leads',
    namesOf_concat_step_inj, sharesStructure_iff below below']

end Shown

/-- Two names that are no text, different in a byte that is replaced. -/
example : SharesStructure ⟨"/repo".toList⟩ ⟨"/repo/A\x00\u0080.cbl".toList⟩ ⟨"/repo/A\x00\u0081.cbl".toList⟩ := by
  decide +kernel

end CobolAtlas
