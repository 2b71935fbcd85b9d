/-
# CobolAtlas.Proofs.FileSystem.Writes -- what is left of a series of writes

Making directories and writing files lets a file system grow (`makeDirectories_wrote`, `write?_wrote`).
`Wrote ws fs fs'` says what a series of writes `ws` leaves: at the place that the path of a write leads to there
is what one of the writes to that place has written, and what is at no such place is as it was.  Series that
follow each other are one series (`Wrote.append`).
-/
import CobolAtlas.Proofs.FileSystem.Lookup

namespace CobolAtlas.FileSystem

set_option autoImplicit false

variable {fs fs' fs'' : FileSystem}

/-! ## One entry -/

theorem lookup_map_replace (entries : List (Location × Entry)) (l l' : Location) (e : Entry) :
    (entries.map fun old => if old.1 == l then (l, e) else old).lookup l' =
      if l' = l then (entries.lookup l).map fun _ => e else entries.lookup l' := by
  induction entries with
  | nil => simp only [List.map_nil, List.lookup_nil, Option.map_none, ite_self]
  | cons old entries ih =>
    obtain ⟨k, f⟩ := old
    rw [List.map_cons]
    by_cases same : k = l
    · subst same
      rw [if_pos (beq_self_eq_true k), List.lookup_cons, List.lookup_cons_self, Option.map_some, List.lookup_cons, ih]
      by_cases here : l' = k
      · rw [if_pos here, here, beq_self_eq_true, if_pos rfl]
      · rw [if_neg here, beq_eq_false_iff_ne.2 here, if_neg here]
    · rw [if_neg (by simpa using same), List.lookup_cons, ih, List.lookup_cons, List.lookup_cons,
        beq_eq_false_iff_ne.2 (Ne.symm same)]
      by_cases here : l' = l
      · rw [if_pos here, if_pos here, here, beq_eq_false_iff_ne.2 (Ne.symm same)]
      · rw [if_neg here, if_neg here]

theorem any_eq_isSome_lookup (entries : List (Location × Entry)) (l : Location) :
    entries.any (·.1 == l) = (entries.lookup l).isSome := by
  induction entries with
  | nil => rfl
  | cons old entries ih =>
    rw [List.any_cons, List.lookup_cons, ih]
    by_cases same : old.1 = l
    · rw [beq_iff_eq.2 same, beq_iff_eq.2 same.symm, Bool.true_or]
      rfl
    · rw [beq_eq_false_iff_ne.2 same, beq_eq_false_iff_ne.2 (Ne.symm same), Bool.false_or]

/-- The entry is put there, and nothing else changes. -/
theorem entry?_put {l : Location} (notRoot : l ≠ []) (e : Entry) (l' : Location) :
    entry? (fs.put l e) l' = if l' = l then some e else fs.entry? l' := by
  have lookups : (fs.put l e).entries.lookup l' = if l' = l then some e else fs.entries.lookup l' := by
    rw [put]
    simp only [any_eq_isSome_lookup]
    cases there : fs.entries.lookup l with
    | some old =>
      rw [Option.isSome_some, if_pos rfl]
      dsimp only
      rw [lookup_map_replace, there, Option.map_some]
    | none =>
      rw [Option.isSome_none, if_neg Bool.false_ne_true]
      dsimp only
      rw [List.lookup_append]
      by_cases here : l' = l
      · rw [if_pos here, here, there, List.lookup_cons_self, Option.none_or]
      · rw [if_neg here, List.lookup_cons, beq_eq_false_iff_ne.2 here, List.lookup_nil, Option.or_none]
  by_cases root : l' = []
  · rw [root, if_neg (Ne.symm notRoot)]
    rfl
  · have inside : l'.isEmpty = false := List.isEmpty_eq_false_iff.2 root
    rw [ entry?, inside, if_neg Bool.false_ne_true, lookups, entry?, inside, if_neg Bool.false_ne_true]

/-- Where nothing of another kind was, a file or a directory may come. -/
theorem grows_put {l : Location} (notRoot : l ≠ []) {e : Entry} (notLink : ∀ target, e ≠ .link target)
    (free : ∀ old, fs.entry? l = some old → e.form = old.form) : Grows fs (fs.put l e) where
  current := by rw [put]; split <;> rfl
  keeps l' old there := by
    rw [entry?_put notRoot]
    split
    · rename_i here
      exact ⟨e, rfl, free old (here ▸ there)⟩
    · exact ⟨old, there, rfl⟩
  links l' target there := by
    rw [entry?_put notRoot] at there
    split at there
    · exact absurd (Option.some.inj there) (notLink target)
    · exact there

/-! ## A series of writes -/

/-- What a series of writes leaves. -/
structure Wrote (ws : List (Path × Bytes)) (fs fs' : FileSystem) : Prop where
  grows : Grows fs fs'
  /-- The place of a write holds what a write to that place has written. -/
  holds : ∀ w ∈ ws, ∃ w' ∈ ws, fs'.resolve w'.1 = fs'.resolve w.1 ∧ fs'.read? w.1 = some w'.2
  /-- What is at the place of no write is as it was. -/
  others : ∀ l e, fs.entry? l = some e → (∀ w ∈ ws, fs'.resolve w.1 ≠ .ok l) → fs'.entry? l = some e

theorem Wrote.refl (fs : FileSystem) : Wrote [] fs fs := ⟨.refl fs, nofun, fun _ _ there _ => there⟩

theorem exists_of_read? {p : Path} {content : Bytes} (read : fs.read? p = some content) :
    ∃ l modified executable, fs.resolve p = .ok l ∧ fs.entry? l = some (.file content modified executable) := by
  rw [read?, find?] at read
  cases found : fs.resolve p with
  | error _ => simp [found] at read
  | ok l =>
    rw [found] at read
    simp only at read
    split at read
    · rename_i there
      cases read
      exact ⟨l, _, _, rfl, there⟩
    · cases read

theorem read?_of_entry? {p : Path} {l : Location} {content : Bytes} {modified : Nat} {executable : Bool}
    (found : fs.resolve p = .ok l) (there : fs.entry? l = some (.file content modified executable)) :
    fs.read? p = some content := by
  rw [read?, find?, found]
  simp only [there]

theorem read?_congr {p q : Path} (same : fs.resolve p = fs.resolve q) : fs.read? p = fs.read? q := by
  rw [read?, find?, same, read?, find?]

/-- Series of writes that follow each other are one series. -/
theorem Wrote.append {ws ws' : List (Path × Bytes)} (wrote : Wrote ws fs fs') (wrote' : Wrote ws' fs' fs'') :
    Wrote (ws ++ ws') fs fs'' where
  grows := wrote.grows.trans wrote'.grows
  holds w member := by
    -- The second series counts where it writes to the place at all; else the first has left it as it was.
    by_cases again : ∃ w' ∈ ws', fs''.resolve w'.1 = fs''.resolve w.1
    · obtain ⟨w', member', same⟩ := again
      obtain ⟨w'', member'', same', read⟩ := wrote'.holds w' member'
      exact ⟨w'', List.mem_append_right ws member'', same'.trans same, (read?_congr same).symm.trans read⟩
    · simp only [not_exists, not_and] at again
      have inFirst : w ∈ ws := by
        rcases List.mem_append.1 member with inFirst | inSecond
        · exact inFirst
        · exact absurd rfl (again w inSecond)
      obtain ⟨w', member', same, read⟩ := wrote.holds w inFirst
      obtain ⟨l, modified, executable, found, there⟩ := exists_of_read? read
      have found' : fs''.resolve w.1 = .ok l := wrote'.grows.resolve found
      have there' := wrote'.others l _ there fun v inSecond leads => again v inSecond (leads.trans found'.symm)
      refine ⟨w', List.mem_append_left ws' member', ?_, read?_of_entry? found' there'⟩
      rw [found', wrote'.grows.resolve (same.trans found)]
  others l e there elsewhere := by
    refine wrote'.others l e (wrote.others l e there fun w member leads => ?_) fun w member =>
      elsewhere w (List.mem_append_right ws member)
    exact elsewhere w (List.mem_append_left ws' member) (wrote'.grows.resolve leads)

/-- What is read of a file that was written is what a write to its place has written. -/
theorem Wrote.read {ws : List (Path × Bytes)} (wrote : Wrote ws fs fs') {p : Path} {content : Bytes}
    (member : (p, content) ∈ ws) :
    ∃ q content', (q, content') ∈ ws ∧ fs'.resolve q = fs'.resolve p ∧ fs'.read? p = some content' := by
  obtain ⟨⟨q, content'⟩, among, same, read⟩ := wrote.holds _ member
  exact ⟨q, content', among, same, read⟩

/-! ## Directories -/

/-- A directory is made where nothing was. -/
theorem makeDirectory_made {p : Path} (made : fs.makeDirectory p = .made fs') :
    ∃ l, l ≠ [] ∧ fs.entry? l = none ∧ fs' = fs.put l .directory := by
  rw [makeDirectory] at made
  split at made
  · split at made <;> cases made
  split at made
  · cases made
  split at made
  · cases made
  · cases made
  split at made
  · cases made
  split at made
  · split at made
    · cases made
    · rename_i free
      exact ⟨_, by simp, by simpa using free, (Made.made.inj made).symm⟩
  · cases made

theorem makeDirectory_wrote {p : Path} (made : fs.makeDirectory p = .made fs') : Wrote [] fs fs' := by
  obtain ⟨l, notRoot, free, rfl⟩ := makeDirectory_made made
  refine ⟨grows_put notRoot nofun fun old there => ?_, nofun, fun l' e there _ => ?_⟩
  · rw [free] at there
    cases there
  · rw [entry?_put notRoot, if_neg, there]
    rintro rfl
    rw [free] at there
    cases there

theorem settle_wrote (fs : FileSystem) (p : Path) : Wrote [] fs (fs.settle p).2 := by
  rw [settle]
  split
  · rename_i made
    exact makeDirectory_wrote made
  · exact .refl fs

theorem makeLevels_wrote (levels : Nat) (fs : FileSystem) (p : Path) : Wrote [] fs (makeLevels levels fs p).2 := by
  induction levels generalizing fs p with
  | zero => exact .refl fs
  | succ levels ih =>
    rw [makeLevels]
    split
    · exact .refl fs
    split
    · rename_i made
      exact makeDirectory_wrote made
    · exact .refl fs
    split
    · exact .refl fs
    rename_i above _
    have wrote := ih fs above
    split
    · rename_i failed
      rwa [failed] at wrote
    · rename_i settled
      rw [settled] at wrote
      exact wrote.append (settle_wrote _ p)

theorem makeDirectories_wrote (fs : FileSystem) (p : Path) : Wrote [] fs (fs.makeDirectories p).2 :=
  makeLevels_wrote (p.text.length + 1) fs p

/-! ## Files -/

/-- A write replaces the content of a file or adds the file, and changes nothing else. -/
theorem write?_put {p : Path} {content : Bytes} (home : fs.AllDirectories fs.current)
    (written : fs.write? p content = some fs') :
    ∃ l executable, l ≠ [] ∧ fs.resolveNew p = .ok l ∧ (fs.FileAt l ∨ fs.entry? l = none) ∧
      fs' = fs.put l (.file content fs.clock.now executable) := by
  rw [write?] at written
  cases found : fs.resolveNew p with
  | error _ => simp [found, Except.toOption] at written
  | ok l =>
    simp only [found, Except.toOption, Option.bind_eq_bind, Option.bind_some] at written
    have leaf : fs.entry? l ≠ some .directory → fs.FileAt l ∨ fs.entry? l = none := fun notDirectory =>
      (lookUp_cases home found).elim (fun directories => absurd directories.here notDirectory) (·.1)
    have notRoot : fs.entry? l ≠ some .directory → l ≠ [] := fun notDirectory root => notDirectory (by rw [root]; rfl)
    split at written
    · cases written
    · rename_i executable there
      have notDirectory : fs.entry? l ≠ some .directory := by rw [there]; nofun
      exact ⟨l, executable, notRoot notDirectory, rfl, leaf notDirectory, (Option.some.inj written).symm⟩
    · rename_i notDirectory _
      exact ⟨l, false, notRoot notDirectory, rfl, leaf notDirectory, (Option.some.inj written).symm⟩

theorem write?_wrote {p : Path} {content : Bytes} (home : fs.AllDirectories fs.current)
    (written : fs.write? p content = some fs') : Wrote [(p, content)] fs fs' := by
  obtain ⟨l, executable, notRoot, found, leaf, rfl⟩ := write?_put home written
  have grows : Grows fs (fs.put l (.file content fs.clock.now executable)) := by
    refine grows_put notRoot nofun fun old there => ?_
    rcases leaf with ⟨_, _, _, file⟩ | free
    · rw [file] at there
      cases there
      rfl
    · rw [free] at there
      cases there
  have there : entry? (fs.put l (.file content fs.clock.now executable)) l =
      some (.file content fs.clock.now executable) := by
    rw [entry?_put notRoot, if_pos rfl]
  have leads := grows.resolve_of_resolveNew found ⟨_, _, _, there⟩
  refine ⟨grows, fun w member => ?_, fun l' e there' elsewhere => ?_⟩
  · rw [List.mem_singleton.1 member]
    exact ⟨_, List.mem_singleton_self _, rfl, read?_of_entry? leads there⟩
  · rw [entry?_put notRoot, if_neg, there']
    rintro rfl
    exact elsewhere _ (List.mem_singleton_self _) leads

end CobolAtlas.FileSystem
