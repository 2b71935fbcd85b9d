/-
# CobolAtlas.Proofs.Repository.Walk -- the sources of a walk

A walk from a root comes to the root and to paths that are some names below it, to each once, and may meet errors on the
way (`IsWalk`).  Which of the paths are sources is told by the names between the root and the path and by the
extension alone (`Path.IsSource`, `isSource_iff`): no name of the root, of what is above it or of the file itself counts.
So the sources are the same whatever the order of the walk is and wherever its errors are (`sourcesOf_exact`).
-/
import CobolAtlas.Proofs.Repository.Sources

namespace CobolAtlas

set_option autoImplicit false

open Text CobolAtlas.Path

/-! ## Paths below a root -/

namespace Path

variable {root p : Path} {extensions : List Text} {dir : List Text} {n : Text}

/-- The names between the root and the last are what a skipped directory is looked for in. -/
theorem inSkipped_of_components (below : p.components = root.components ++ namesOf (dir ++ [n])) :
    p.inSkipped root = dir.any skippedDirectories.contains := by
  obtain ⟨xs, found, leads⟩ := relativeTo?_of_components below
  rw [inSkipped, found, Option.getD_some]
  obtain ⟨directories, up, steps⟩ := exists_parent_of_components leads.components_eq
  simp only [up, steps, namesOf, List.any_map]
  rfl

theorem hasExtension_of_components (below : p.components = root.components ++ namesOf (dir ++ [n])) :
    p.hasExtension extensions = true ↔
      ∃ stem ext, Splits n stem ext ∧ ∃ e ∈ extensions, sameIgnoringCase e ext = true := by
  have last : p.components = root.components ++ namesOf dir ++ [.name n] := by
    rw [below, namesOf_concat, List.append_assoc]
  have cut : p.extension = (splitName n).2 := by rw [extension, fileName_of_components last, Option.bind_some]
  rw [hasExtension, cut]
  constructor
  · intro configured
    cases found : (splitName n).2 with
    | none =>
      rw [found] at configured
      cases configured
    | some ext =>
      rw [found] at configured
      obtain ⟨stem, splits⟩ := splits_of_extension found
      exact ⟨stem, ext, splits, List.any_eq_true.1 configured⟩
  · rintro ⟨stem, ext, splits, configured⟩
    rw [splits.splitName_eq]
    exact List.any_eq_true.2 configured

/-- A path below the root with no skipped directory between the two, whose name ends in a configured extension. -/
def IsSource (p root : Path) (extensions : List Text) : Prop :=
  ∃ dir n stem ext, p.components = root.components ++ namesOf (dir ++ [n]) ∧ (∀ d ∈ dir, d ∉ skippedDirectories) ∧
    Splits n stem ext ∧ ∃ e ∈ extensions, sameIgnoringCase e ext = true

theorem same_root_of_components (below : p.components = root.components ++ namesOf (dir ++ [n])) :
    p.same root = false := by
  rw [Bool.eq_false_iff, Ne, same_iff, below]
  simp [namesOf]

theorem isSource_iff (below : p.components = root.components ++ namesOf (dir ++ [n])) :
    p.IsSource root extensions ↔ p.inSkipped root = false ∧ p.hasExtension extensions = true := by
  constructor
  · rintro ⟨dir, n, stem, ext, below, spared, splits, configured⟩
    refine ⟨?_, (hasExtension_of_components below).2 ⟨stem, ext, splits, configured⟩⟩
    rw [inSkipped_of_components below, List.any_eq_false]
    intro d among skipped
    exact spared d among (List.contains_iff_mem.1 skipped)
  · rintro ⟨spared, configured⟩
    obtain ⟨stem, ext, splits, configured⟩ := (hasExtension_of_components below).1 configured
    refine ⟨dir, n, stem, ext, below, fun d among skipped => ?_, splits, configured⟩
    rw [inSkipped_of_components below, List.any_eq_false] at spared
    exact spared d among (List.contains_iff_mem.2 skipped)

end Path

/-! ## Walks -/

/-- The entry that is sighted. -/
def Sighting.entry? : Sighting → Option (Path × Option EntryKind)
  | .entry path kind => some (path, kind)
  | .unreadable => none

/-- The entries of a walk, without its errors. -/
def entriesOf (walk : List Sighting) : List (Path × Option EntryKind) := walk.filterMap Sighting.entry?

/-- A walk comes to the root and to what is some names below it, and to nothing twice. -/
structure IsWalk (root : Path) (walk : List Sighting) : Prop where
  below : ∀ e ∈ entriesOf walk, e.1.same root = true ∨ ∃ dir n, e.1.components = root.components ++ namesOf (dir ++ [n])
  once : (entriesOf walk).Pairwise fun e f => e.1.same f.1 = true → e.2 ≠ f.2

section Walk

variable {root p : Path} {extensions : List Text} {walk walk' : List Sighting}

theorem mem_entriesOf {kind : Option EntryKind} : (p, kind) ∈ entriesOf walk ↔ Sighting.entry p kind ∈ walk := by
  rw [entriesOf, List.mem_filterMap]
  constructor
  · rintro ⟨s, member, same⟩
    cases s with
    | unreadable => cases same
    | entry q kind' =>
      obtain ⟨rfl, rfl⟩ := Prod.mk.inj (Option.some.inj same)
      exact member
  · intro member
    exact ⟨_, member, rfl⟩

/-- Another order of the entries is a walk as well. -/
theorem IsWalk.perm (isWalk : IsWalk root walk) (perm : (entriesOf walk').Perm (entriesOf walk)) : IsWalk root walk' where
  below e member := isWalk.below e (perm.mem_iff.1 member)
  once := by
    refine (perm.pairwise_iff fun {e f} differ same kind => differ ?_ kind.symm).2 isWalk.once
    exact same_iff.2 (same_iff.1 same).symm

/-- Errors give no source. -/
theorem filterMap_source?_eq (root : Path) (extensions : List Text) (walk : List Sighting) :
    walk.filterMap (·.source? root extensions) =
      (entriesOf walk).filterMap fun e => (Sighting.entry e.1 e.2).source? root extensions := by
  rw [entriesOf, List.filterMap_filterMap]
  refine List.filterMap_congr fun s _ => ?_
  cases s <;> rfl

theorem sourcesOf_perm (walk : List Sighting) :
    (sourcesOf root extensions walk).Perm (walk.filterMap (·.source? root extensions)) := Path.ascending_perm _

/-- Two files of a walk are different paths, so their order is strict. -/
theorem IsWalk.pairwise_sourcesOf (isWalk : IsWalk root walk) (extensions : List Text) :
    (sourcesOf root extensions walk).Pairwise fun p q => p.rank < q.rank := by
  refine Path.pairwise_ascending ?_
  rw [filterMap_source?_eq]
  refine isWalk.once.filterMap _ fun e f differ p isSource q isSource' => ?_
  obtain ⟨⟨rfl, kind⟩, -⟩ := (Sighting.source?_eq_some_iff.1 isSource).imp_left Sighting.entry.inj
  obtain ⟨⟨rfl, kind'⟩, -⟩ := (Sighting.source?_eq_some_iff.1 isSource').imp_left Sighting.entry.inj
  rw [Bool.eq_false_iff]
  intro same
  exact differ same (kind.trans kind'.symm)

theorem IsWalk.mem_sourcesOf_iff (isWalk : IsWalk root walk) :
    p ∈ sourcesOf root extensions walk ↔ (p, some .file) ∈ entriesOf walk ∧ p.IsSource root extensions := by
  rw [(sourcesOf_perm walk).mem_iff, mem_entriesOf, List.mem_filterMap]
  constructor
  · rintro ⟨s, member, isSource⟩
    obtain ⟨rfl, apart, spared, configured⟩ := Sighting.source?_eq_some_iff.1 isSource
    refine ⟨member, ?_⟩
    rcases isWalk.below _ (mem_entriesOf.2 member) with same | ⟨dir, n, below⟩
    · rw [same] at apart
      cases apart
    · exact (isSource_iff below).2 ⟨spared, configured⟩
  · rintro ⟨member, isSource⟩
    obtain ⟨dir, n, -, -, below, -⟩ := id isSource
    obtain ⟨spared, configured⟩ := (isSource_iff below).1 isSource
    exact ⟨_, member, Sighting.source?_eq_some_iff.2 ⟨rfl, same_root_of_components below, spared, configured⟩⟩

/-- **The sources of a walk.**  They come in the order of their components, each once, and are the files that have a
configured extension and no skipped directory between the root and themselves.  A walk to the same entries in another
order, with other errors on the way, gives the same list. -/
theorem sourcesOf_exact (isWalk : IsWalk root walk) (extensions : List Text) :
    (sourcesOf root extensions walk).Pairwise (fun p q => p.rank < q.rank) ∧
      (∀ p, p ∈ sourcesOf root extensions walk ↔ (p, some .file) ∈ entriesOf walk ∧ p.IsSource root extensions) ∧
      ∀ walk', (entriesOf walk').Perm (entriesOf walk) →
        sourcesOf root extensions walk' = sourcesOf root extensions walk := by
  refine ⟨isWalk.pairwise_sourcesOf extensions, fun p => isWalk.mem_sourcesOf_iff, fun walk' perm => ?_⟩
  have isWalk' := isWalk.perm perm
  refine List.Perm.eq_of_pairwise (fun p q _ _ before after => absurd before after.asymm)
    (isWalk'.pairwise_sourcesOf extensions) (isWalk.pairwise_sourcesOf extensions) ?_
  refine (sourcesOf_perm walk').trans (List.Perm.trans ?_ (sourcesOf_perm walk).symm)
  rw [filterMap_source?_eq, filterMap_source?_eq]
  exact perm.filterMap _

end Walk

/-- Entries and errors below a root that is named as directories that are skipped. -/
def belowTarget : List Sighting :=
  [.entry ⟨"/w/target".toList⟩ (some .directory),
    .unreadable,
    .entry ⟨"/w/target/src".toList⟩ (some .directory),
    .entry ⟨"/w/target/src/build.cbl".toList⟩ (some .file),
    .entry ⟨"/w/target/src/dist/old.cbl".toList⟩ (some .file),
    .unreadable,
    .entry ⟨"/w/target/B.CBL".toList⟩ (some .file),
    .entry ⟨"/w/target/link.cbl".toList⟩ (some .link),
    .entry ⟨"/w/target/pipe.cbl".toList⟩ none]

theorem sourcesOf_exact_belowTarget :
    IsWalk ⟨"/w/target".toList⟩ belowTarget ∧
      sourcesOf ⟨"/w/target".toList⟩ ["cbl".toList] belowTarget =
        [⟨"/w/target/B.CBL".toList⟩, ⟨"/w/target/src/build.cbl".toList⟩] ∧
      sourcesOf ⟨"/w/target".toList⟩ ["cbl".toList] belowTarget.reverse =
        [⟨"/w/target/B.CBL".toList⟩, ⟨"/w/target/src/build.cbl".toList⟩] := by
  have isWalk : IsWalk ⟨"/w/target".toList⟩ belowTarget := by
    refine ⟨?_, by decide +kernel⟩
    simp only [entriesOf, belowTarget, Sighting.entry?, List.filterMap_cons, List.filterMap_nil, List.forall_mem_cons]
    exact ⟨.inl rfl, .inr ⟨[], "src".toList, rfl⟩, .inr ⟨["src".toList], "build.cbl".toList, rfl⟩,
      .inr ⟨["src".toList, "dist".toList], "old.cbl".toList, rfl⟩, .inr ⟨[], "B.CBL".toList, rfl⟩,
      .inr ⟨[], "link.cbl".toList, rfl⟩, .inr ⟨[], "pipe.cbl".toList, rfl⟩, nofun⟩
  have listed : sourcesOf ⟨"/w/target".toList⟩ ["cbl".toList] belowTarget =
      [⟨"/w/target/B.CBL".toList⟩, ⟨"/w/target/src/build.cbl".toList⟩] := by decide +kernel
  obtain ⟨-, -, inAnyOrder⟩ := sourcesOf_exact isWalk ["cbl".toList]
  refine ⟨isWalk, listed, (inAnyOrder _ ?_).trans listed⟩
  exact (List.reverse_perm belowTarget).filterMap _

/-- What a file system is walked for is a walk. -/
theorem FileSystem.isWalk_walk {fs : FileSystem} (wellFormed : fs.WellFormed) (root : Path) :
    IsWalk root (fs.walk root) := by
  have listed : entriesOf ((fs.listing root).map fun e => .entry e.path (some e.kind)) =
      (fs.listing root).map fun e => (e.path, some e.kind) := by
    rw [entriesOf, List.filterMap_map, ← List.filterMap_eq_map]
    rfl
  have below : ∀ e ∈ (fs.listing root).map fun e => (e.path, some e.kind),
      ∃ dir n, e.1.components = root.components ++ namesOf (dir ++ [n]) := by
    intro e member
    obtain ⟨l, inListing, rfl⟩ := List.mem_map.1 member
    exact listing_below wellFormed inListing
  have once : ((fs.listing root).map fun e => (e.path, some e.kind)).Pairwise
      fun e f => e.1.same f.1 = true → e.2 ≠ f.2 := by
    refine List.pairwise_map.2 ((listing_apart wellFormed root).imp fun apart same => ?_)
    rw [apart] at same
    cases same
  rw [walk]
  cases fs.find? root with
  | none =>
    have skipped (rest : List Sighting) : entriesOf (.unreadable :: rest) = entriesOf rest := rfl
    constructor
    · intro e member
      rw [skipped, listed] at member
      exact .inr (below e member)
    · rw [skipped, listed]
      exact once
  | some top =>
    have first (rest : List Sighting) :
        entriesOf (.entry root (some top.kind) :: rest) = (root, some top.kind) :: entriesOf rest := rfl
    constructor
    · intro e member
      rw [first, listed] at member
      rcases List.mem_cons.1 member with rfl | member
      · exact .inl (same_iff.2 rfl)
      · exact .inr (below e member)
    · rw [first, listed]
      refine List.pairwise_cons.2 ⟨fun e member same => ?_, once⟩
      obtain ⟨dir, n, steps⟩ := below e member
      have apart := same_root_of_components steps
      rw [Bool.eq_false_iff, Ne, same_iff] at apart
      exact absurd (same_iff.1 same).symm apart

end CobolAtlas
