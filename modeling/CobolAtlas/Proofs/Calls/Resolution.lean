/-
# CobolAtlas.Proofs.Calls.Resolution -- which file a program name leads to

The two indexes of a filling grow program by program and a name keeps the first file it gets.
`Filling.Covers` says what they know of the programs gone through: in the one the file of the first program
that declares a name, in the other the file of the first program that has it as a stem, and between them
all names that are not empty.  One more program keeps it (`insert_covers`), so it holds of all programs
(`fill_covers`).  A merge puts the one index before the other (`lookup_merge`) and joins their names
(`keys_merge`).

The main statement is `ofPrograms_lookup_size_edges`.
-/
import CobolAtlas.Calls.Graph
import Mathlib.Data.Finset.Card

namespace CobolAtlas

set_option autoImplicit false

/-! ## Empty texts -/

namespace Text

/-- No character vanishes in lower case. -/
theorem lowerCharacter_ne_nil (c : Char) : lowerCharacter c ≠ [] := by
  unfold lowerCharacter
  split
  · simp
  · split
    · rename_i image found
      obtain ⟨before, after, table, -⟩ := List.lookup_eq_some_iff.1 found
      have member : (c.toNat, image) ∈ lowerSequences := by rw [table]; simp
      have nonempty : ∀ entry ∈ lowerSequences, entry.2 ≠ [] := by decide
      simpa using nonempty _ member
    · split <;> simp

theorem lower_eq_nil_iff (t : Text) : lower t = [] ↔ t = [] := by
  cases t with
  | nil => simp [lower, lowerAfter]
  | cons c t =>
      simp only [lower, lowerAfter, List.append_eq_nil_iff, reduceCtorEq, iff_false, not_and]
      intro vanishes
      split at vanishes
      · split at vanishes <;> simp at vanishes
      · exact absurd vanishes (lowerCharacter_ne_nil c)

end Text

namespace ProgramIndex

/-- The names of an index. -/
def keys (index : ProgramIndex) : List Text := index.entries.map (·.1)

/-- Does the program declare the name, letter case aside? -/
def declares (name : Text) (p : Program) : Bool := p.declaresId && key p.id == key name

/-- Is the name, letter case aside, the stem under which the program is known? -/
def hasStem (name : Text) (p : Program) : Bool := !p.declaresId && key p.id == key name

/-! ## One name -/

theorem keys_insertNew (index : ProgramIndex) (name file : Text) :
    (index.insertNew name file).keys =
      if name ∈ index.keys then index.keys else index.keys ++ [name] := by
  have present : index.entries.any (·.1 == name) = true ↔ name ∈ index.keys := by
    simp only [List.any_eq_true, beq_iff_eq, keys, List.mem_map]
  unfold insertNew
  by_cases known : name ∈ index.keys
  · rw [if_pos (present.2 known), if_pos known]
  · rw [if_neg (fun h => known (present.1 h)), if_neg known]
    simp [keys]

theorem nodup_insertNew {index : ProgramIndex} (nodup : index.keys.Nodup) (name file : Text) :
    (index.insertNew name file).keys.Nodup := by
  rw [keys_insertNew]
  split
  · exact nodup
  · rename_i fresh
    refine List.nodup_append.2 ⟨nodup, List.nodup_singleton name, ?_⟩
    intro known member other isName same
    rw [List.mem_singleton.1 isName] at same
    exact fresh (same ▸ member)

/-- A name that has a file keeps it. -/
theorem lookup_insertNew (index : ProgramIndex) (name file query : Text) :
    (index.insertNew name file).lookup query =
      (index.lookup query).or (if key query = name then some file else none) := by
  unfold insertNew lookup
  split
  · rename_i known
    by_cases same : key query = name
    · have isSome : (List.lookup (key query) index.entries).isSome = true := by
        simp only [List.any_eq_true, beq_iff_eq] at known
        obtain ⟨entry, member, rfl⟩ := known
        exact List.lookup_isSome_iff.2 ⟨entry, member, by simp [same]⟩
      rw [Option.or_of_isSome isSome]
    · simp [same]
  · simp [List.lookup_append, List.lookup_singleton]

theorem toFinset_keys_insertNew (index : ProgramIndex) (name file : Text) :
    (index.insertNew name file).keys.toFinset = insert name index.keys.toFinset := by
  rw [keys_insertNew]
  split
  · rename_i known
    exact (Finset.insert_eq_of_mem (List.mem_toFinset.2 known)).symm
  · rw [List.toFinset_append, Finset.union_comm]
    rfl

/-! ## One index after the other -/

theorem lookup_merge (index other : ProgramIndex) (query : Text) :
    (index.merge other).lookup query = (index.lookup query).or (other.lookup query) := by
  obtain ⟨entries⟩ := other
  unfold merge
  induction entries generalizing index with
  | nil => exact (Option.or_none).symm
  | cons entry entries ih =>
      obtain ⟨name, file⟩ := entry
      have first : lookup ⟨(name, file) :: entries⟩ query =
          (if key query = name then some file else none).or (lookup ⟨entries⟩ query) := by
        by_cases same : key query = name
        · simp [lookup, same]
        · have differs : (key query == name) = false := beq_false_of_ne same
          simp [lookup, List.lookup_cons, same, differs]
      rw [List.foldl_cons, ih, lookup_insertNew, first, Option.or_assoc]

theorem keys_merge (index other : ProgramIndex) :
    (index.merge other).keys.toFinset = index.keys.toFinset ∪ other.keys.toFinset := by
  obtain ⟨entries⟩ := other
  unfold merge
  induction entries generalizing index with
  | nil => exact (Finset.union_empty _).symm
  | cons entry entries ih =>
      have names : (⟨entry :: entries⟩ : ProgramIndex).keys.toFinset =
          insert entry.1 (⟨entries⟩ : ProgramIndex).keys.toFinset := List.toFinset_cons
      rw [List.foldl_cons, ih, toFinset_keys_insertNew, names, Finset.insert_union, Finset.union_insert]

theorem nodup_merge {index : ProgramIndex} (nodup : index.keys.Nodup) (other : ProgramIndex) :
    (index.merge other).keys.Nodup := by
  obtain ⟨entries⟩ := other
  unfold merge
  induction entries generalizing index with
  | nil => exact nodup
  | cons entry entries ih => exact ih (nodup_insertNew nodup _ _)

/-! ## All programs -/

/-- What a filling knows of the programs gone through. -/
structure Filling.Covers (f : Filling) (programs : List Program) : Prop where
  declared : ∀ query, key query ≠ [] →
    f.declared.lookup query = (programs.find? (declares query)).map (·.file)
  stems : ∀ query, key query ≠ [] →
    f.stems.lookup query = (programs.find? (hasStem query)).map (·.file)
  names : f.declared.keys.toFinset ∪ f.stems.keys.toFinset =
    (programs.map fun p => key p.id).toFinset.erase []
  nodup : f.declared.keys.Nodup

/-- One more program is found where none was found before it. -/
theorem find?_append_singleton (q : Program → Bool) (programs : List Program) (p : Program) :
    ((programs ++ [p]).find? q).map (·.file) =
      ((programs.find? q).map (·.file)).or (if q p then some p.file else none) := by
  rw [List.find?_append, Option.map_or, List.find?_singleton]
  cases q p <;> rfl

theorem names_append_singleton (programs : List Program) (p : Program) :
    ((programs ++ [p]).map fun p => key p.id).toFinset =
      insert (key p.id) (programs.map fun p => key p.id).toFinset := by
  rw [List.map_append, List.toFinset_append, Finset.union_comm]
  rfl

/-- An empty name is nobody's. -/
theorem notFound_of_unnamed {p : Program} (unnamed : key p.id = []) {query : Text} (named : key query ≠ []) :
    declares query p = false ∧ hasStem query p = false := by
  have different : (key p.id == key query) = false := beq_false_of_ne (unnamed ▸ named.symm)
  rw [declares, hasStem, different, Bool.and_false, Bool.and_false]
  exact ⟨rfl, rfl⟩

theorem insert_covers {f : Filling} {programs : List Program} (covers : f.Covers programs) (p : Program) :
    (f.insert p).Covers (programs ++ [p]) := by
  unfold Filling.insert
  by_cases unnamed : key p.id = []
  · simp only [unnamed, List.isEmpty_nil, if_true]
    refine ⟨?_, ?_, ?_, covers.nodup⟩
    · intro query named
      rw [find?_append_singleton, (notFound_of_unnamed unnamed named).1, covers.declared query named]
      exact Option.or_none.symm
    · intro query named
      rw [find?_append_singleton, (notFound_of_unnamed unnamed named).2, covers.stems query named]
      exact Option.or_none.symm
    · rw [names_append_singleton, unnamed, Finset.erase_insert_eq_erase, covers.names]
  · have named : (key p.id).isEmpty = false := by simpa using unnamed
    have names : ((programs ++ [p]).map fun p => key p.id).toFinset.erase [] =
        insert (key p.id) ((programs.map fun p => key p.id).toFinset.erase []) := by
      rw [names_append_singleton, Finset.erase_insert_of_ne unnamed]
    have same : ∀ query, (key query = key p.id) = ((key p.id == key query) = true) := by
      intro query
      rw [beq_iff_eq, @eq_comm _ (key p.id)]
    simp only [named, Bool.false_eq_true, if_false]
    cases declaresId : p.declaresId with
    | true =>
      refine ⟨fun query nonempty => ?_, fun query nonempty => ?_, ?_, nodup_insertNew covers.nodup _ _⟩
      · simp only [if_true, find?_append_singleton, lookup_insertNew, covers.declared query nonempty, declares,
          declaresId, Bool.true_and, same]
      · simp only [if_true, find?_append_singleton, covers.stems query nonempty, hasStem, declaresId, Bool.not_true,
          Bool.false_and, Bool.false_eq_true, if_false, Option.or_none]
      · rw [names, ← covers.names]
        simp only [if_true, toFinset_keys_insertNew, Finset.insert_union]
    | false =>
      refine ⟨fun query nonempty => ?_, fun query nonempty => ?_, ?_, covers.nodup⟩
      · simp only [Bool.false_eq_true, if_false, find?_append_singleton, covers.declared query nonempty, declares,
          declaresId, Bool.false_and, Option.or_none]
      · simp only [Bool.false_eq_true, if_false, find?_append_singleton, lookup_insertNew, covers.stems query nonempty,
          hasStem, declaresId, Bool.not_false, Bool.true_and, same]
      · rw [names, ← covers.names]
        simp only [Bool.false_eq_true, if_false, toFinset_keys_insertNew, Finset.union_insert]

theorem fill_covers (programs : List Program) : (fill programs).Covers programs := by
  have run : ∀ (rest seen : List Program) (f : Filling), f.Covers seen →
      (rest.foldl Filling.insert f).Covers (seen ++ rest) := by
    intro rest
    induction rest with
    | nil =>
        intro seen f covers
        rw [List.append_nil]
        exact covers
    | cons p rest ih =>
        intro seen f covers
        have further := ih (seen ++ [p]) (f.insert p) (insert_covers covers p)
        rw [List.append_assoc] at further
        exact further
  exact run programs [] ⟨empty, empty⟩ ⟨fun _ _ => rfl, fun _ _ => rfl, rfl, List.nodup_nil⟩

/-- The empty name leads nowhere. -/
theorem lookup_nil (programs : List Program) : (ofPrograms programs).lookup [] = none := by
  have fresh : ([] : Text) ∉ (ofPrograms programs).keys := by
    rw [← List.mem_toFinset, ofPrograms, keys_merge, (fill_covers programs).names]
    exact Finset.notMem_erase _ _
  have emptyKey : key [] = [] := rfl
  rw [lookup, emptyKey, List.lookup_eq_none_iff]
  intro entry member
  have known : entry.1 ∈ (ofPrograms programs).keys := List.mem_map_of_mem member
  exact bne_iff_ne.2 fun isEmpty => fresh (isEmpty ▸ known)

/-- Declared names count before stems, and among either the first counts. -/
theorem lookup_ofPrograms (programs : List Program) {query : Text} (named : query ≠ []) :
    (ofPrograms programs).lookup query =
      ((programs.find? (declares query)).or (programs.find? (hasStem query))).map (·.file) := by
  have named' : key query ≠ [] := fun h => named ((Text.lower_eq_nil_iff query).1 h)
  have covers := fill_covers programs
  rw [ofPrograms, lookup_merge, covers.declared query named', covers.stems query named', Option.map_or]

/-- One entry for each name. -/
theorem size_ofPrograms (programs : List Program) :
    (ofPrograms programs).size = ((programs.map fun p => key p.id).toFinset.erase []).card := by
  have nodup : (ofPrograms programs).keys.Nodup := nodup_merge (fill_covers programs).nodup _
  have count : (ofPrograms programs).size = (ofPrograms programs).keys.toFinset.card := by
    rw [List.toFinset_card_of_nodup nodup, size, keys, List.length_map]
  rw [count, ofPrograms, keys_merge, (fill_covers programs).names]

/-- **Index and resolution are sound and complete.**  A name leads to the file of the first program that
declares it, else of the first program whose file's stem it is, letter case aside; the empty name leads
nowhere.  There is one entry for each name that is not empty.  Resolution keeps all edges in order and
every field of them but the file of the target, which the index gives. -/
theorem ofPrograms_lookup_size_edges (programs : List Program) :
    (∀ name : Text, (ofPrograms programs).lookup name =
      if name = [] then none
      else match programs.find? fun p => p.declaresId && Text.lower p.id == Text.lower name with
        | some p => some p.file
        | none =>
            (programs.find? fun p => !p.declaresId && Text.lower p.id == Text.lower name).map (·.file)) ∧
    (ofPrograms programs).size = ((programs.map fun p => Text.lower p.id).toFinset.erase []).card ∧
    ∀ index : ProgramIndex, (CallGraph.ofPrograms programs index).edges =
      programs.flatMap fun p => p.calls.map fun e =>
        { fromFile := e.fromFile
          fromParagraph := e.fromParagraph
          line := e.line
          toProgram := e.toProgram
          toFile := index.lookup e.toProgram
          dynamic := e.dynamic } := by
  refine ⟨fun name => ?_, size_ofPrograms programs, fun index => ?_⟩
  · split
    · rename_i isEmpty
      rw [isEmpty, lookup_nil]
    · rename_i named
      rw [lookup_ofPrograms programs named]
      unfold declares hasStem key
      cases programs.find? fun p => p.declaresId && Text.lower p.id == Text.lower name <;> rfl
  · exact List.map_flatMap

end ProgramIndex

end CobolAtlas
