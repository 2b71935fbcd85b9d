/-
# CobolAtlas.Proofs.Repository.Sources -- what is listed below a root

A sighting is a source for four reasons at once (`Sighting.source?_eq_some_iff`).  What a file system lists below a root
is some names below it (`listing_below`), and nothing is listed twice (`listing_apart`).  The name of a structure file
is a name like any other.
-/
import CobolAtlas.Proofs.FileSystem.Lookup
import CobolAtlas.Proofs.Path.Order
import CobolAtlas.Repository.Output
import Mathlib.Data.List.Nodup

namespace CobolAtlas

set_option autoImplicit false

open Text CobolAtlas.Path

/-! ## Names of structure files -/

section StructureName

variable {stem : Text}

theorem isName_structureName (nonempty : stem ≠ []) (noSlash : '/' ∉ stem) :
    IsName (stem ++ '.' :: structureExtension) := by
  have length : (stem ++ '.' :: structureExtension).length = stem.length + 15 := by
    rw [List.length_append]
    rfl
  refine ⟨⟨by simp, ?_, ?_⟩, ?_⟩
  · rw [List.mem_append, not_or]
    exact ⟨noSlash, by decide⟩
  · intro same
    rw [same] at length
    cases length
  · intro same
    have longer := List.length_pos_of_ne_nil nonempty
    rw [same, List.length_cons, List.length_singleton] at length
    omega

theorem isPiece_replaced (nonempty : stem ≠ []) (noSlash : '/' ∉ stem) : IsPiece (replaced stem structureExtension) := by
  rw [replaced]
  split
  · exact ⟨by decide, by decide, by decide⟩
  · exact (isName_structureName nonempty noSlash).toIsPiece

end StructureName

/-! ## Sources -/

/-- A sighting is a source where it is a file apart from the root that no skipped directory and the extension speak
against. -/
theorem Sighting.source?_eq_some_iff {root p : Path} {extensions : List Text} {s : Sighting} :
    s.source? root extensions = some p ↔
      s = .entry p (some .file) ∧ p.same root = false ∧ p.inSkipped root = false ∧ p.hasExtension extensions = true := by
  cases s with
  | unreadable => exact iff_of_false nofun nofun
  | entry q kind? =>
    cases kind? with
    | none => exact iff_of_false nofun nofun
    | some kind =>
      rw [source?]
      constructor
      · intro found
        split at found
        · cases found
        · rename_i passed
          split at found
          · rename_i extension
            obtain rfl := Option.some.inj found
            simp only [Bool.not_eq_true, Bool.or_eq_false_iff, bne_eq_false_iff_eq] at passed
            obtain ⟨⟨apart, rfl⟩, spared⟩ := passed
            exact ⟨rfl, apart, spared, extension⟩
          · cases found
      · rintro ⟨same, apart, spared, extension⟩
        obtain ⟨rfl, isFile⟩ := Sighting.entry.inj same
        obtain rfl := Option.some.inj isFile
        rw [apart, spared, extension]
        rfl

namespace FileSystem

variable {fs : FileSystem} {levels : Nat} {scope : Ignore.Scope} {d l : Location} {e : Entry}

theorem mem_entriesIn (member : (l, e) ∈ fs.entriesIn scope d) :
    (l, e) ∈ fs.entries ∧ l.length = d.length + 1 ∧ d <+: l := by
  simp only [entriesIn, List.mem_filter, Bool.and_eq_true, beq_iff_eq, List.isPrefixOf_iff_prefix] at member
  exact ⟨member.1, member.2.1⟩

/-- What is listed below a directory is an entry with names after those of the directory. -/
theorem mem_entriesBelow (member : (l, e) ∈ fs.entriesBelow levels scope d) :
    (l, e) ∈ fs.entries ∧ ∃ names, names ≠ [] ∧ l = d ++ names := by
  induction levels generalizing scope d with
  | zero => exact absurd member List.not_mem_nil
  | succ levels ih =>
    rw [entriesBelow] at member
    obtain ⟨⟨k, f⟩, here, member⟩ := List.mem_flatMap.1 member
    obtain ⟨entry, length, names, rfl⟩ := mem_entriesIn here
    have nonempty : names ≠ [] := by
      rintro rfl
      simp at length
    rcases List.mem_cons.1 member with same | below
    · obtain ⟨rfl, rfl⟩ := Prod.mk.inj same
      exact ⟨entry, names, nonempty, rfl⟩
    · cases f with
      | directory =>
        obtain ⟨entry', more, nonempty', rfl⟩ := ih below
        exact ⟨entry', names ++ more, by simp [nonempty], List.append_assoc ..⟩
      | file => exact absurd below List.not_mem_nil
      | link => exact absurd below List.not_mem_nil

/-- Blocks of places below different places of one depth list no place twice. -/
theorem nodup_flatMap_below {here : List (Location × Entry)} {block : Location × Entry → List (Location × Entry)}
    {depth : Nat} (apart : (here.map (·.1)).Nodup) (level : ∀ x ∈ here, x.1.length = depth)
    (starts : ∀ x, ∀ y ∈ block x, x.1 <+: y.1) (once : ∀ x, ((block x).map (·.1)).Nodup) :
    ((here.flatMap block).map (·.1)).Nodup := by
  rw [List.map_flatMap, List.nodup_flatMap]
  refine ⟨fun x _ => once x, (List.pairwise_map.1 apart).imp_of_mem ?_⟩
  refine fun {x y} isHere isHere' differ k member member' => differ ?_
  obtain ⟨z, listed, rfl⟩ := List.mem_map.1 member
  obtain ⟨z', listed', same⟩ := List.mem_map.1 member'
  have starts' : y.1 <+: z.1 := same ▸ starts y z' listed'
  have length : x.1.length = y.1.length := (level x isHere).trans (level y isHere').symm
  exact (List.prefix_of_prefix_length_le (starts x z listed) starts' length.le).eq_of_length length

/-- Each place is listed once. -/
theorem entriesBelow_nodup (distinct : (fs.entries.map (·.1)).Nodup) (levels : Nat) (scope : Ignore.Scope)
    (d : Location) : ((fs.entriesBelow levels scope d).map (·.1)).Nodup := by
  induction levels generalizing scope d with
  | zero => exact List.nodup_nil
  | succ levels ih =>
    rw [entriesBelow]
    have apart : ((fs.entriesIn scope d).map (·.1)).Nodup := distinct.sublist (List.filter_sublist.map _)
    refine nodup_flatMap_below apart (fun x isHere => (mem_entriesIn isHere).2.1) ?_ ?_
    · rintro ⟨l, e⟩ ⟨k, f⟩ listed
      rcases List.mem_cons.1 listed with same | below
      · obtain ⟨rfl, -⟩ := Prod.mk.inj same
        exact List.prefix_rfl
      · cases e with
        | directory =>
          obtain ⟨-, names, -, rfl⟩ := mem_entriesBelow below
          exact List.prefix_append l names
        | file => exact absurd below List.not_mem_nil
        | link => exact absurd below List.not_mem_nil
    · rintro ⟨l, e⟩
      cases e with
      | directory =>
        rw [List.map_cons, List.nodup_cons]
        refine ⟨fun again => ?_, ih _ l⟩
        obtain ⟨⟨k, f⟩, below, same⟩ := List.mem_map.1 again
        obtain ⟨-, names, nonempty, longer⟩ := mem_entriesBelow below
        exact nonempty (List.self_eq_append_right.1 (same.symm.trans longer))
      | file => exact List.nodup_singleton l
      | link => exact List.nodup_singleton l

/-- Names of entries are names, each place has one entry, and the directory that relative paths start from is there. -/
structure WellFormed (fs : FileSystem) : Prop where
  names : ∀ entry ∈ fs.entries, ∀ n ∈ entry.1, IsName n
  distinct : (fs.entries.map (·.1)).Nodup
  home : fs.AllDirectories fs.current

/-- What is listed below a place has its path below the path of that place. -/
theorem WellFormed.below (wellFormed : fs.WellFormed) (member : (l, e) ∈ fs.entriesBelow levels scope d) (root : Path) :
    ∃ names, l = d ++ names ∧ names ≠ [] ∧ (∀ n ∈ names, IsName n) ∧
      (l.drop d.length).foldl (fun p name => p.join ⟨name⟩) root = ⟨root.within ++ joinWith ['/'] names⟩ := by
  obtain ⟨entry, names, nonempty, rfl⟩ := mem_entriesBelow member
  have areNames : ∀ n ∈ names, IsName n := fun n member => wellFormed.names _ entry n (List.mem_append_right d member)
  refine ⟨names, rfl, nonempty, areNames, ?_⟩
  rw [List.drop_left, foldl_join nonempty fun n member => (areNames n member).toIsPiece]

/-- What is listed are different paths, each some names below the root. -/
theorem listing_below (wellFormed : fs.WellFormed) {root : Path} {e : Listed} (member : e ∈ fs.listing root) :
    ∃ dir n, e.path.components = root.components ++ namesOf (dir ++ [n]) := by
  rw [listing] at member
  split at member
  · exact absurd member List.not_mem_nil
  obtain ⟨⟨l, f⟩, below, rfl⟩ := List.mem_map.1 member
  obtain ⟨names, -, more, areNames, path⟩ := wellFormed.below below root
  refine ⟨names.dropLast, names.getLast more, ?_⟩
  rw [List.dropLast_concat_getLast, ← components_below_names root more areNames]
  exact congrArg Path.components path

theorem listing_apart (wellFormed : fs.WellFormed) (root : Path) :
    (fs.listing root).Pairwise fun e f => e.path.same f.path = false := by
  rw [listing]
  split
  · exact .nil
  rename_i top _
  have once := entriesBelow_nodup wellFormed.distinct fs.entries.length (.ofDirectory fs top) top
  refine List.pairwise_map.2 ((List.pairwise_map.1 once).imp_of_mem fun {x y} member member' differ => ?_)
  obtain ⟨names, spelled, more, areNames, path⟩ := wellFormed.below member root
  obtain ⟨names', spelled', more', areNames', path'⟩ := wellFormed.below member' root
  rw [Bool.eq_false_iff]
  intro same
  simp only [path, path'] at same
  rw [same_iff, components_below_names root more areNames, components_below_names root more' areNames',
    List.append_right_inj, namesOf_inj] at same
  exact differ (by rw [spelled, spelled', same])

end FileSystem

end CobolAtlas
