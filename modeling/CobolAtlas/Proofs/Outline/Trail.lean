/-
# CobolAtlas.Proofs.Outline.Trail -- the folders between a root and a path

Going up from parent to parent ends, for each parent has a component less (`Path.induction`).  So the bound in
`foldersTo` is never reached, and the folders from below the root down to a folder are those down to its parent and
the folder itself (`foldersDownTo_of_parent`).  They are a `Trail`: each takes one step more than the one before,
from the root to the folder, and so they are all paths between the two (`Trail.mem_iff`).

`Climbs` is the same climb where some folders are known: it ends at the first folder that is known.  Where with a
folder all folders above it are known, it makes the folders of the trail that are not (`climbs_iff`).
-/
import CobolAtlas.Outline.Repository
import CobolAtlas.Proofs.Path.Components
import Mathlib.Data.List.Infix

namespace CobolAtlas

set_option autoImplicit false

/-- A step more goes further. -/
theorem further_of_concat {l m : List Component} (longer : ∃ c, l = m ++ [c]) : m <+: l ∧ ¬l <+: m := by
  obtain ⟨c, rfl⟩ := longer
  refine ⟨List.prefix_append m [c], fun back => ?_⟩
  have lengths := back.length_le
  rw [List.length_append, List.length_singleton] at lengths
  omega

namespace Path

/-- `q` takes all steps of `p` and goes further. -/
def IsAbove (p q : Path) : Prop := p.components <+: q.components ∧ p.components ≠ q.components

instance (p q : Path) : Decidable (p.IsAbove q) :=
  inferInstanceAs (Decidable (p.components <+: q.components ∧ p.components ≠ q.components))

/-- What a path has because its parent has it, every path has. -/
theorem induction {P : Path → Prop} (step : ∀ p : Path, (∀ q, p.parent = some q → P q) → P p) (p : Path) : P p := by
  induction size : p.components.length using Nat.strong_induction_on generalizing p with
  | _ n ih =>
    refine step p fun q up => ih q.components.length ?_ q rfl
    obtain ⟨c, components⟩ := components_of_parent up
    rw [← size, components, List.length_append]
    exact Nat.lt_succ_self _

/-- Above a path that goes further than the root there is the root still. -/
theorem prefix_parent {root p q : Path} (up : p.parent = some q) (above : root.IsAbove p) :
    root.components <+: q.components := by
  obtain ⟨c, components⟩ := components_of_parent up
  obtain ⟨below, differs⟩ := above
  rw [components] at below differs
  exact (List.prefix_concat_iff.1 below).resolve_left differs

/-- A path without a parent is one step below a root that it goes further than. -/
theorem components_of_top {root p : Path} (top : p.parent = none) (above : root.IsAbove p) :
    ∃ c, p.components = root.components ++ [c] := by
  obtain ⟨⟨rest, components⟩, differs⟩ := above
  have short := length_components_of_parent_eq_none top
  rw [← components, List.length_append] at short
  cases rest with
  | nil => exact absurd ((List.append_nil _).symm.trans components) differs
  | cons c rest =>
    rw [List.length_cons] at short
    obtain rfl : rest = [] := List.eq_nil_of_length_eq_zero (by omega)
    exact ⟨c, components.symm⟩

end Path

namespace Outline

/-! ## The climb -/

/-- The bound of a climb does not matter where it is above the number of components. -/
theorem foldersTo_eq (root : Path) (folder : Path) {n m : Nat} (enough : folder.components.length < n)
    (enough' : folder.components.length < m) : foldersTo root n folder = foldersTo root m folder := by
  induction folder using Path.induction generalizing n m with
  | step folder ih =>
    obtain ⟨n, rfl⟩ := Nat.exists_eq_succ_of_ne_zero (Nat.ne_of_gt (Nat.zero_lt_of_lt enough))
    obtain ⟨m, rfl⟩ := Nat.exists_eq_succ_of_ne_zero (Nat.ne_of_gt (Nat.zero_lt_of_lt enough'))
    rw [foldersTo, foldersTo]
    cases up : folder.parent with
    | none => rfl
    | some parent =>
      obtain ⟨c, components⟩ := Path.components_of_parent up
      rw [components, List.length_append, List.length_singleton] at enough enough'
      simp only
      rw [ih parent up (Nat.lt_of_succ_lt_succ enough) (Nat.lt_of_succ_lt_succ enough')]

/-- The folders from below the root down to a folder, none where it is not below the root. -/
def foldersDownTo (root folder : Path) : List Path :=
  if folder.startsWith root then foldersTo root (folder.components.length + 1) folder else []

theorem foldersOf_eq (root file : Path) : foldersOf root file = foldersDownTo root (file.parent.getD root) := rfl

section Climb

variable {root folder parent : Path}

theorem foldersDownTo_of_outside (outside : ¬root.components <+: folder.components) :
    foldersDownTo root folder = [] := by
  rw [foldersDownTo, if_neg (fun starts => outside (Path.startsWith_iff.1 starts))]

theorem foldersDownTo_of_same (same : folder.components = root.components) : foldersDownTo root folder = [] := by
  have isRoot : folder.same root = true := Path.same_iff.2 same
  rw [foldersDownTo, foldersTo, if_pos isRoot, ite_self]

theorem foldersDownTo_of_top (above : root.IsAbove folder) (top : folder.parent = none) :
    foldersDownTo root folder = [folder] := by
  have notRoot : ¬folder.same root = true := fun same => above.2 (Path.same_iff.1 same).symm
  rw [foldersDownTo, if_pos (Path.startsWith_iff.2 above.1), foldersTo, if_neg notRoot, top]

/-- The folders down to a folder are those down to its parent, and the folder. -/
theorem foldersDownTo_of_parent (above : root.IsAbove folder) (up : folder.parent = some parent) :
    foldersDownTo root folder = foldersDownTo root parent ++ [folder] := by
  have notRoot : ¬folder.same root = true := fun same => above.2 (Path.same_iff.1 same).symm
  have parentBelow := Path.startsWith_iff.2 (Path.prefix_parent up above)
  obtain ⟨c, components⟩ := Path.components_of_parent up
  have shorter : parent.components.length < folder.components.length := by
    rw [components, List.length_append]
    exact Nat.lt_succ_self _
  rw [foldersDownTo, if_pos (Path.startsWith_iff.2 above.1), foldersTo, if_neg notRoot, up, foldersDownTo,
    if_pos parentBelow]
  simp only
  rw [foldersTo_eq root parent shorter (Nat.lt_succ_self _)]

end Climb

/-! ## Trails -/

/-- Each path takes one step more than the one before it, and the first one step more than `steps`. -/
def Trail (steps : List Component) : List Path → Prop
  | [] => True
  | folder :: folders => (∃ c, folder.components = steps ++ [c]) ∧ Trail folder.components folders

/-- The steps to the end of a trail. -/
def trailEnd (steps : List Component) : List Path → List Component
  | [] => steps
  | folder :: folders => trailEnd folder.components folders

section

variable {steps : List Component} {folders : List Path}

theorem trailEnd_concat (steps : List Component) (folders : List Path) (folder : Path) :
    trailEnd steps (folders ++ [folder]) = folder.components := by
  induction folders generalizing steps with
  | nil => rfl
  | cons next folders ih => exact ih next.components

theorem Trail.concat (trail : Trail steps folders) {folder : Path} {c : Component}
    (next : folder.components = trailEnd steps folders ++ [c]) : Trail steps (folders ++ [folder]) := by
  induction folders generalizing steps with
  | nil => exact ⟨⟨c, next⟩, trivial⟩
  | cons first folders ih => exact ⟨trail.1, ih trail.2 next⟩

theorem Trail.prefix_end (trail : Trail steps folders) : steps <+: trailEnd steps folders := by
  induction folders generalizing steps with
  | nil => exact List.prefix_rfl
  | cons folder folders ih =>
    obtain ⟨next, rest⟩ := trail
    exact (further_of_concat next).1.trans (ih rest)

theorem Trail.length_end (trail : Trail steps folders) :
    (trailEnd steps folders).length = steps.length + folders.length := by
  induction folders generalizing steps with
  | nil => rfl
  | cons folder folders ih =>
    obtain ⟨⟨c, next⟩, rest⟩ := trail
    rw [trailEnd, ih rest, next, List.length_append, List.length_singleton, List.length_cons]
    omega

/-- Between one start and one end there is one trail, but for its spelling. -/
theorem Trail.unique {folders' : List Path} (trail : Trail steps folders) (trail' : Trail steps folders')
    (ends : trailEnd steps folders = trailEnd steps folders') :
    folders.map Path.components = folders'.map Path.components := by
  have lengths : folders.length = folders'.length := by
    have length := trail.length_end
    rw [ends, trail'.length_end] at length
    omega
  induction folders generalizing steps folders' with
  | nil => rw [List.eq_nil_of_length_eq_zero lengths.symm]
  | cons folder folders ih =>
    obtain ⟨folder', folders', rfl⟩ := List.exists_cons_of_length_eq_add_one lengths.symm
    obtain ⟨⟨c, next⟩, rest⟩ := trail
    obtain ⟨⟨c', next'⟩, rest'⟩ := trail'
    have same : folder.components = folder'.components := by
      have first : folder.components <+: trailEnd folder'.components folders' := ends ▸ rest.prefix_end
      refine (List.prefix_of_prefix_length_le first rest'.prefix_end ?_).eq_of_length ?_ <;> simp [next, next']
    rw [trailEnd, trailEnd, ← same] at ends
    rw [← same] at rest'
    rw [List.map_cons, List.map_cons, same, ih rest rest' ends (by simpa using lengths)]

/-- A trail passes all that is between its start and its end. -/
theorem Trail.mem_iff (trail : Trail steps folders) {d : List Component} :
    d ∈ folders.map Path.components ↔ (steps <+: d ∧ steps ≠ d) ∧ d <+: trailEnd steps folders := by
  induction folders generalizing steps with
  | nil =>
    constructor
    · intro member
      exact absurd member List.not_mem_nil
    · rintro ⟨⟨below, differs⟩, above⟩
      exact absurd (antisymm below above) differs
  | cons folder folders ih =>
    obtain ⟨next, rest⟩ := trail
    obtain ⟨first, further⟩ := further_of_concat next
    have toEnd : folder.components <+: trailEnd folder.components folders := rest.prefix_end
    rw [List.map_cons, List.mem_cons, ih rest, trailEnd]
    constructor
    · rintro (rfl | ⟨⟨below, -⟩, above⟩)
      · exact ⟨⟨first, fun same => further (same ▸ List.prefix_rfl)⟩, toEnd⟩
      · refine ⟨⟨first.trans below, fun same => further ?_⟩, above⟩
        rw [same]
        exact below
    · rintro ⟨⟨below, differs⟩, above⟩
      by_cases here : d = folder.components
      · exact .inl here
      · -- `d` is longer than `steps`, so it reaches the next folder at least
        have longer : steps.length < d.length :=
          Nat.lt_of_le_of_ne below.length_le fun same => differs (below.eq_of_length same)
        have reaches : folder.components <+: d := by
          obtain ⟨c, components⟩ := next
          refine List.prefix_of_prefix_length_le toEnd above ?_
          rw [components, List.length_append, List.length_singleton]
          exact longer
        exact .inr ⟨⟨reaches, fun same => here same.symm⟩, above⟩

end

/-- The folders down to a folder lead from the root to it. -/
theorem foldersDownTo_trail {root folder : Path} (below : root.components <+: folder.components) :
    Trail root.components (foldersDownTo root folder) ∧
      trailEnd root.components (foldersDownTo root folder) = folder.components := by
  induction folder using Path.induction with
  | step folder ih =>
    by_cases same : folder.components = root.components
    · rw [foldersDownTo_of_same same]
      exact ⟨trivial, same.symm⟩
    · have above : root.IsAbove folder := ⟨below, fun isRoot => same isRoot.symm⟩
      cases up : folder.parent with
      | none =>
        rw [foldersDownTo_of_top above up]
        exact ⟨⟨Path.components_of_top up above, trivial⟩, rfl⟩
      | some parent =>
        obtain ⟨trail, ends⟩ := ih parent up (Path.prefix_parent up above)
        obtain ⟨c, components⟩ := Path.components_of_parent up
        rw [foldersDownTo_of_parent above up]
        exact ⟨trail.concat (by rw [ends]; exact components), trailEnd_concat _ _ folder⟩

/-- The folders down to a folder are told by its components. -/
theorem foldersDownTo_congr {root folder folder' : Path} (same : folder.components = folder'.components) :
    (foldersDownTo root folder).map Path.components = (foldersDownTo root folder').map Path.components := by
  by_cases below : root.components <+: folder.components
  · obtain ⟨trail, ends⟩ := foldersDownTo_trail below
    obtain ⟨trail', ends'⟩ := foldersDownTo_trail (same ▸ below)
    exact trail.unique trail' (by rw [ends, ends', same])
  · rw [foldersDownTo_of_outside below, foldersDownTo_of_outside (same ▸ below)]

/-! ## The home of a file -/

/-- The folder of a file below the root, and the root itself for any other file. -/
def home (root file : Path) : Path := if root.IsAbove file then file.parent.getD root else root

/-- The folders of a file lead from the root to its home. -/
theorem foldersOf_trail (root file : Path) :
    Trail root.components (foldersOf root file) ∧
      trailEnd root.components (foldersOf root file) = (home root file).components := by
  have atRoot : foldersDownTo root root = [] := foldersDownTo_of_same rfl
  rw [foldersOf_eq, home]
  cases up : file.parent with
  | none =>
    rw [Option.getD_none, ite_self, atRoot]
    exact ⟨trivial, rfl⟩
  | some parent =>
    rw [Option.getD_some]
    by_cases above : root.IsAbove file
    · rw [if_pos above]
      exact foldersDownTo_trail (Path.prefix_parent up above)
    · have outside : ¬root.components <+: parent.components := by
        obtain ⟨first, further⟩ := further_of_concat (Path.components_of_parent up)
        intro below
        refine above ⟨below.trans first, fun same => further ?_⟩
        rw [← same]
        exact below
      rw [if_neg above, foldersDownTo_of_outside outside]
      exact ⟨trivial, rfl⟩

/-- They are the folders between the root and the file. -/
theorem mem_foldersOf_iff {root file d : Path} :
    d.components ∈ (foldersOf root file).map Path.components ↔ root.IsAbove d ∧ d.IsAbove file := by
  obtain ⟨trail, ends⟩ := foldersOf_trail root file
  rw [trail.mem_iff, ends]
  refine and_congr_right fun belowRoot => ?_
  have notRoot : ¬d.components <+: root.components := fun below =>
    belowRoot.2 (antisymm belowRoot.1 below)
  rw [home]
  by_cases above : root.IsAbove file
  · rw [if_pos above]
    cases up : file.parent with
    | none =>
      obtain ⟨c, components⟩ := Path.components_of_top up above
      refine iff_of_false notRoot fun between => ?_
      have onTrail := between.1
      rw [components] at onTrail
      rcases List.prefix_concat_iff.1 onTrail with same | below
      · exact between.2 (same.trans components.symm)
      · exact notRoot below
    | some parent =>
      obtain ⟨first, further⟩ := further_of_concat (Path.components_of_parent up)
      rw [Option.getD_some]
      constructor
      · intro below
        refine ⟨below.trans first, fun same => further ?_⟩
        rw [← same]
        exact below
      · exact Path.prefix_parent up
  · rw [if_neg above]
    refine iff_of_false notRoot fun between => above ⟨belowRoot.1.trans between.1, fun same => ?_⟩
    exact notRoot (same ▸ between.1)

/-! ## A climb to what is known -/

/-- A climb from a folder towards the root makes folders, those above first.  It ends at a folder that is known, at
one that is not below the root, and at one without a parent. -/
inductive Climbs (root : Path) (known : Path → Bool) : Path → List Path → Prop where
  | known {folder : Path} (isKnown : known folder = true) : Climbs root known folder []
  | outside {folder : Path} (new : known folder = false) (isOutside : folder.startsWith root = false) :
      Climbs root known folder []
  | top {folder : Path} (new : known folder = false) (inside : folder.startsWith root = true)
      (noParent : folder.parent = none) : Climbs root known folder [folder]
  | up {folder parent : Path} {made : List Path} (new : known folder = false)
      (inside : folder.startsWith root = true) (isParent : folder.parent = some parent)
      (above : Climbs root known parent made) : Climbs root known folder (made ++ [folder])

section

variable {root : Path} {known : Path → Bool} {folder : Path}

theorem Climbs.unique {made made' : List Path} (climbs : Climbs root known folder made)
    (climbs' : Climbs root known folder made') : made = made' := by
  induction climbs generalizing made' with
  | known isKnown => cases climbs' <;> simp_all
  | outside new isOutside => cases climbs' <;> simp_all
  | top new inside noParent => cases climbs' <;> simp_all
  | up new inside isParent above ih =>
    cases climbs' with
    | known isKnown => simp_all
    | outside _ isOutside => simp_all
    | top _ _ noParent => simp_all
    | up _ _ isParent' above' =>
      obtain rfl := Option.some.inj (isParent.symm.trans isParent')
      rw [ih above']

section

variable (rootKnown : ∀ d : Path, d.components = root.components → known d = true)
  (closed : ∀ d e : Path, root.components <+: d.components → d.components <+: e.components → known e = true →
    known d = true)
include closed

/-- With a folder, all that is between it and the root is known. -/
theorem known_of_mem_foldersDownTo (isKnown : known folder = true) {d : Path} (onTrail : d ∈ foldersDownTo root folder) :
    known d = true := by
  by_cases below : root.components <+: folder.components
  · obtain ⟨trail, ends⟩ := foldersDownTo_trail below
    obtain ⟨⟨fromRoot, -⟩, toFolder⟩ := trail.mem_iff.1 (List.mem_map_of_mem onTrail)
    rw [ends] at toFolder
    exact closed d folder fromRoot toFolder isKnown
  · rw [foldersDownTo_of_outside below] at onTrail
    exact absurd onTrail List.not_mem_nil

include rootKnown

theorem climbs_foldersDownTo (folder : Path) :
    Climbs root known folder ((foldersDownTo root folder).filter fun d => !known d) := by
  induction folder using Path.induction with
  | step folder ih =>
    cases isKnown : known folder with
    | true =>
      have allKnown : (foldersDownTo root folder).filter (fun d => !known d) = [] := by
        rw [List.filter_eq_nil_iff]
        intro d onTrail
        simp [known_of_mem_foldersDownTo closed isKnown onTrail]
      rw [allKnown]
      exact .known isKnown
    | false =>
      cases inside : folder.startsWith root with
      | false =>
        rw [foldersDownTo, inside]
        exact .outside isKnown inside
      | true =>
        have notRoot : root.components ≠ folder.components := fun same => by
          rw [rootKnown folder same.symm] at isKnown
          cases isKnown
        have above : root.IsAbove folder := ⟨Path.startsWith_iff.1 inside, notRoot⟩
        cases up : folder.parent with
        | none =>
          rw [foldersDownTo_of_top above up, List.filter_singleton, isKnown]
          exact .top isKnown inside up
        | some parent =>
          rw [foldersDownTo_of_parent above up, List.filter_append, List.filter_singleton, isKnown]
          exact .up isKnown inside up (ih parent up)

/-- Where the root is known, and with a folder all that is between it and the root, every climb ends and makes the
folders on the way that are not known. -/
theorem climbs_iff (made : List Path) :
    Climbs root known folder made ↔ made = (foldersDownTo root folder).filter fun d => !known d := by
  have climbs := climbs_foldersDownTo rootKnown closed folder
  constructor
  · intro other
    exact other.unique climbs
  · rintro rfl
    exact climbs

end

end

end Outline

end CobolAtlas
