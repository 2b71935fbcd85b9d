/-
# CobolAtlas.Proofs.Path.Components -- paths told by their components

What is written behind a path adds its components to those of the path (`components_below`, `components_join`).  A path
that goes on from another by names alone is found again relative to it however the two are spelled: what remains is a
row of pieces that begins and ends with a name (`relativeTo?_of_components`).  So its last name is what a new extension
is put on.
-/
import CobolAtlas.Proofs.Path.Extension
import CobolAtlas.Proofs.Path.Parent

namespace CobolAtlas.Path

set_option autoImplicit false

open Text

theorem startsWith_iff {p q : Path} : p.startsWith q = true ↔ q.components <+: p.components := by
  rw [startsWith, List.isPrefixOf_iff_prefix]

theorem same_iff {p q : Path} : p.same q = true ↔ p.components = q.components := by
  rw [same, beq_iff_eq]

/-! ## Pieces and their components -/

theorem isName_of_componentOf {t n : Text} (noSlash : '/' ∉ t) (isName : componentOf false t = some (.name n)) :
    t = n ∧ IsName n := by
  unfold componentOf at isName
  split at isName
  · cases isName
  · split at isName
    · cases isName
    · split at isName
      · cases isName
      · rename_i nonempty notCurrent notParent
        obtain rfl : t = n := by simpa using isName
        exact ⟨rfl, ⟨nonempty, noSlash, notCurrent⟩, notParent⟩

theorem isPiece_of_componentOf {t : Text} (noSlash : '/' ∉ t) (counts : (componentOf false t).isNone = false) :
    IsPiece t := by
  refine ⟨?_, noSlash, ?_⟩
  · rintro rfl
    cases counts
  · rintro rfl
    cases counts

/-- A piece between slashes.  Only at the start of a path does one stand for the current directory. -/
def IsWritten (x : Text × Option Component) : Prop := '/' ∉ x.1 ∧ (x.2 = some .current ∨ x = piece x.1)

theorem isWritten_of_mem_pieces {p : Path} {x : Text × Option Component} (member : x ∈ p.pieces) : IsWritten x := by
  have among : x.1 ∈ splitOn '/' p.body := by
    rw [← map_fst_ofSplit (!p.isAbsolute) (splitOn '/' p.body), ← pieces_eq_ofSplit]
    exact List.mem_map_of_mem member
  refine ⟨notMem_of_mem_splitOn among, ?_⟩
  rw [pieces_eq_ofSplit] at member
  cases split : splitOn '/' p.body with
  | nil => exact absurd split (splitOn_ne_nil '/' _)
  | cons first rest =>
    rw [split, ofSplit] at member
    rcases List.mem_cons.1 member with rfl | later
    · by_cases current : first = ['.']
      · cases p.isAbsolute with
        | true => exact .inr rfl
        | false => exact .inl (by rw [current]; rfl)
      · right
        simp only [piece, componentOf, current, if_false]
    · obtain ⟨t, -, rfl⟩ := List.mem_map.1 later
      exact .inr rfl

theorem filterMap_dropWhile_isNone (ps : List (Text × Option Component)) :
    (ps.dropWhile (·.2.isNone)).filterMap (·.2) = ps.filterMap (·.2) := by
  induction ps with
  | nil => rfl
  | cons p ps ih =>
    obtain ⟨t, _ | c⟩ := p
    · exact ih
    · rfl

theorem filterMap_dropComponents (n : Nat) (ps : List (Text × Option Component)) :
    (dropComponents n ps).filterMap (·.2) = (ps.filterMap (·.2)).drop n := by
  fun_induction dropComponents n ps with
  | case1 ps => rfl
  | case2 n => rfl
  | case3 n t c ps ih => exact ih
  | case4 n t ps ih => exact ih

theorem dropComponents_suffix (n : Nat) (ps : List (Text × Option Component)) : dropComponents n ps <:+ ps := by
  fun_induction dropComponents n ps with
  | case1 ps => exact List.suffix_rfl
  | case2 n => exact List.suffix_rfl
  | case3 n t c ps ih => exact ih.trans (List.suffix_cons _ ps)
  | case4 n t ps ih => exact ih.trans (List.suffix_cons _ ps)

/-! ## What is written behind a path -/

/-- The components of the names. -/
def namesOf (names : List Text) : List Component := names.map .name

theorem namesOf_inj {ns ms : List Text} : namesOf ns = namesOf ms ↔ ns = ms :=
  (List.map_injective_iff.2 fun _ _ => Component.name.inj).eq_iff

theorem namesOf_concat (ns : List Text) (n : Text) : namesOf (ns ++ [n]) = namesOf ns ++ [.name n] := List.map_append

theorem components_below (p : Path) {ns : List Text} (more : ns ≠ []) (row : IsRow ns) :
    (⟨p.within ++ joinWith ['/'] ns⟩ : Path).components = p.components ++ ns.filterMap (componentOf false) := by
  have roots : (⟨p.within ++ joinWith ['/'] ns⟩ : Path).rootComponents = p.rootComponents := by
    rw [rootComponents, isAbsolute_within more row, isAbsolute_start, rootComponents]
  have before : (startPieces p.within).filterMap (·.2) = p.pieces.filterMap (·.2) := by
    by_cases empty : p.text = []
    · obtain rfl : p = ⟨[]⟩ := congrArg Path.mk empty
      rfl
    · exact filterMap_startPieces empty
  rw [components, roots, pieces_within (isStart_within p) more row, List.filterMap_append, before, components,
    List.append_assoc, List.filterMap_map]
  rfl

theorem components_below_names (p : Path) {ns : List Text} (more : ns ≠ []) (areNames : ∀ n ∈ ns, IsName n) :
    (⟨p.within ++ joinWith ['/'] ns⟩ : Path).components = p.components ++ namesOf ns := by
  rw [components_below p more (isRow_of_pieces fun n member => (areNames n member).toIsPiece), namesOf,
    ← List.filterMap_eq_map]
  congr 1
  exact List.filterMap_congr fun n member => componentOf_of_isName (areNames n member)

section Names

variable {p : Path} {dir : List Text} {n : Text}

theorem isAbsolute_of_names (names : p.components = namesOf (dir ++ [n])) : p.isAbsolute = false := by
  rw [Bool.eq_false_iff]
  intro absolute
  have root : Component.root ∈ p.components := by simp [components, rootComponents, absolute]
  rw [names] at root
  simp [namesOf] at root

theorem components_of_relative (relative : p.isAbsolute = false) :
    p.components = (ofSplit true (splitOn '/' p.text)).filterMap (·.2) := by
  rw [components, rootComponents, pieces_eq_ofSplit, body, relative, if_neg Bool.false_ne_true, if_neg Bool.false_ne_true]
  rfl

/-- Where all steps are names, the path begins with a name: it begins neither with a slash nor with a dot. -/
theorem isPiece_of_first (names : p.components = namesOf (dir ++ [n])) {m : Text} {rest : List Text}
    (split : splitOn '/' p.text = m :: rest) : IsPiece m := by
  have relative := isAbsolute_of_names names
  have joined : joinWith ['/'] (m :: rest) = p.text := by rw [← split, joinWith_splitOn]
  rw [components_of_relative relative, split] at names
  refine ⟨?_, notMem_of_mem_splitOn (split ▸ List.mem_cons_self), ?_⟩
  · rintro rfl
    cases rest with
    | nil => simp [ofSplit, componentOf, namesOf] at names
    | cons next rest =>
      rw [isAbsolute, ← joined] at relative
      cases relative
  · rintro rfl
    have current : Component.current ∈ (ofSplit true (['.'] :: rest)).filterMap (·.2) := by simp [ofSplit, componentOf]
    rw [names] at current
    simp [namesOf] at current

/-- A path of names is a row of pieces. -/
theorem exists_row_of_components (names : p.components = namesOf (dir ++ [n])) :
    ∃ ns, p = ⟨joinWith ['/'] ns⟩ ∧ ns ≠ [] ∧ IsRow ns ∧ ns.filterMap (componentOf false) = namesOf (dir ++ [n]) := by
  have row : IsRow (splitOn '/' p.text) := by
    refine ⟨?_, fun _ => notMem_of_mem_splitOn⟩
    cases split : splitOn '/' p.text with
    | nil => nofun
    | cons first rest =>
      rintro m ⟨⟩
      exact isPiece_of_first names split
  have asPieces : ofSplit true (splitOn '/' p.text) = (splitOn '/' p.text).map piece := @ofSplit_append true [] _ row
  refine ⟨splitOn '/' p.text, by rw [joinWith_splitOn], splitOn_ne_nil '/' _, row, ?_⟩
  rw [← names, components_of_relative (isAbsolute_of_names names), asPieces, List.filterMap_map]
  rfl

theorem components_join {rel : Path} (names : rel.components = namesOf (dir ++ [n])) (p : Path) :
    (p.join rel).components = p.components ++ namesOf (dir ++ [n]) := by
  obtain ⟨ns, rfl, more, row, components⟩ := exists_row_of_components names
  rw [join_of_relative (isAbsolute_joinWith more row), components_below p more row, components]

/-- The last piece that counts stands for the last component. -/
theorem exists_last_of_filterMap {ps : List (Text × Option Component)} {steps : List Component} {c : Component}
    (components : ps.filterMap (·.2) = steps ++ [c]) :
    ∃ before t, dropIdle ps = before ++ [(t, some c)] ∧ before.filterMap (·.2) = steps := by
  rw [← filterMap_dropIdle] at components
  have more : dropIdle ps ≠ [] := by
    intro none
    rw [none] at components
    simp at components
  have counts := List.rdropWhile_last_not (fun x : Text × Option Component => x.2.isNone) ps more
  obtain ⟨c', isSome⟩ : ∃ c', ((dropIdle ps).getLast more).2 = some c' :=
    Option.ne_none_iff_exists'.1 fun none => counts (Option.isNone_iff_eq_none.2 none)
  have parts : (dropIdle ps).dropLast ++ [(((dropIdle ps).getLast more).1, some c')] = dropIdle ps := by
    rw [← isSome]
    exact List.dropLast_append_getLast more
  rw [← parts, List.filterMap_append] at components
  obtain ⟨same, rfl⟩ := (List.append_inj' components rfl).imp_right List.singleton_inj.1
  exact ⟨_, _, parts.symm, same⟩

/-- A path that takes a name for its last step has the name. -/
theorem fileName_of_components {steps : List Component} (last : p.components = steps ++ [.name n]) :
    p.fileName = some n := by
  rw [components] at last
  rcases List.eq_nil_or_concat' (p.pieces.filterMap (·.2)) with none | ⟨before, c, some⟩
  · rw [none, List.append_nil, rootComponents] at last
    have member : Component.name n ∈ steps ++ [.name n] := by simp
    rw [← last] at member
    split at member <;> simp at member
  · rw [some, ← List.append_assoc] at last
    obtain rfl : c = .name n := List.singleton_inj.1 (List.append_inj' last rfl).2
    obtain ⟨pieces, t, kept, -⟩ := exists_last_of_filterMap some
    rw [fileName, kept, List.getLast?_concat]

/-- A path that takes a name for its last step has a parent, which takes the steps before. -/
theorem exists_parent_of_components {steps : List Component} (last : p.components = steps ++ [.name n]) :
    ∃ q, p.parent = some q ∧ q.components = steps := by
  cases up : p.parent with
  | none =>
    have member : Component.name n ∈ p.components := by simp [last]
    rw [components_of_parent_eq_none up, rootComponents] at member
    split at member <;> simp at member
  | some q =>
    obtain ⟨c, steps'⟩ := components_of_parent up
    exact ⟨q, rfl, (List.append_inj' (steps'.symm.trans last) rfl).1⟩

end Names

/-! ## What remains behind a path -/

/-- Pieces that stand for the directory, where the name is behind them. -/
structure LeadsTo (dir : List Text) (n : Text) (xs : List Text) : Prop where
  row : IsRow xs
  isName : IsName n
  directory : xs.filterMap (componentOf false) = namesOf dir

section Remains

variable {p base : Path} {dir xs : List Text} {n : Text} {ps : List (Text × Option Component)}

theorem LeadsTo.whole (leads : LeadsTo dir n xs) : IsRow (xs ++ [n]) := leads.row.concat leads.isName.toIsPiece

theorem LeadsTo.isAbsolute_eq (leads : LeadsTo dir n xs) : (⟨joinWith ['/'] (xs ++ [n])⟩ : Path).isAbsolute = false :=
  isAbsolute_joinWith (by simp) leads.whole

theorem LeadsTo.components_eq (leads : LeadsTo dir n xs) :
    (⟨joinWith ['/'] (xs ++ [n])⟩ : Path).components = namesOf dir ++ [.name n] := by
  have steps : (xs ++ [n]).filterMap (componentOf false) = namesOf dir ++ [.name n] := by
    rw [List.filterMap_append, leads.directory]
    simp [componentOf_of_isName leads.isName]
  rw [← steps]
  exact components_below ⟨[]⟩ (by simp) leads.whole

theorem eq_piece_of_names (written : ∀ x ∈ ps, IsWritten x) (names : ps.filterMap (·.2) = namesOf (dir ++ [n])) :
    ∀ x ∈ ps, '/' ∉ x.1 ∧ x = piece x.1 := by
  intro x member
  obtain ⟨noSlash, current | isPiece⟩ := written x member
  · have among : Component.current ∈ ps.filterMap (·.2) := List.mem_filterMap.2 ⟨x, member, current⟩
    rw [names] at among
    simp [namesOf] at among
  · exact ⟨noSlash, isPiece⟩

theorem map_piece_map_fst (arePieces : ∀ x ∈ ps, x = piece x.1) : (ps.map (·.1)).map piece = ps := by
  rw [List.map_map]
  exact (List.map_congr_left fun x member => (arePieces x member).symm).trans (List.map_id ps)

theorem isRow_map_fst (arePieces : ∀ x ∈ ps, '/' ∉ x.1 ∧ x = piece x.1) (first : ∀ x ∈ ps.head?, x.2.isNone = false) :
    IsRow (ps.map (·.1)) where
  first m head := by
    rw [List.head?_map] at head
    obtain ⟨x, isFirst, rfl⟩ := Option.map_eq_some_iff.1 head
    obtain ⟨noSlash, isPiece⟩ := arePieces x (List.mem_of_mem_head? isFirst)
    have counts := first x isFirst
    rw [isPiece] at counts
    exact isPiece_of_componentOf noSlash counts
  noSlash m member := by
    obtain ⟨x, listed, rfl⟩ := List.mem_map.1 member
    exact (arePieces x listed).1

/-- The pieces from the first to the last that count lead to the last name. -/
theorem exists_leadsTo (written : ∀ x ∈ ps, IsWritten x) (names : ps.filterMap (·.2) = namesOf (dir ++ [n])) :
    ∃ xs, dropIdle (ps.dropWhile (·.2.isNone)) = (xs ++ [n]).map piece ∧ LeadsTo dir n xs := by
  have components : (ps.dropWhile (·.2.isNone)).filterMap (·.2) = namesOf dir ++ [.name n] := by
    rw [filterMap_dropWhile_isNone, names, namesOf_concat]
  obtain ⟨before, t, kept, steps⟩ := exists_last_of_filterMap components
  have starts := dropIdle_starts (ps.dropWhile (·.2.isNone))
  rw [kept] at starts
  have arePieces : ∀ x ∈ before ++ [(t, some (.name n))], '/' ∉ x.1 ∧ x = piece x.1 := fun x member =>
    eq_piece_of_names written names x ((List.dropWhile_suffix _).subset (starts.subset member))
  obtain ⟨noSlash, isPiece⟩ := arePieces (t, some (.name n)) (by simp)
  obtain ⟨isLast, isName⟩ := isName_of_componentOf noSlash (Prod.mk.inj isPiece).2.symm
  obtain rfl : t = n := isLast
  have arePieces' : ∀ x ∈ before, '/' ∉ x.1 ∧ x = piece x.1 := fun x member =>
    arePieces x (List.mem_append_left _ member)
  have texts := map_piece_map_fst fun x member => (arePieces' x member).2
  refine ⟨before.map (·.1), ?_, isRow_map_fst arePieces' fun x head => ?_, isName, ?_⟩
  · rw [kept, List.map_append, texts, isPiece]
    rfl
  · obtain ⟨rest, same⟩ := starts
    have counts := List.head?_dropWhile_not (fun x : Text × Option Component => x.2.isNone) ps
    rw [← same, List.head?_append, List.head?_append, Option.mem_def.1 head] at counts
    exact counts
  · rw [← steps]
    conv_rhs => rw [← texts, List.filterMap_map]
    rfl

theorem ofPieces_map_piece (xs : List Text) : ofPieces false (xs.map piece) = ⟨joinWith ['/'] xs⟩ := by
  rw [ofPieces, List.map_map]
  exact congrArg (fun ts => Path.mk (joinWith ['/'] ts)) (List.map_id xs)

/-- Relative to a path without steps, a path of names keeps all of its pieces that count. -/
theorem relativeTo?_of_nil (none : base.components = []) (names : p.components = namesOf (dir ++ [n])) :
    ∃ xs, p.relativeTo? base = some ⟨joinWith ['/'] (xs ++ [n])⟩ ∧ LeadsTo dir n xs := by
  have starts : p.startsWith base = true := by
    rw [startsWith_iff, none]
    exact List.nil_prefix
  obtain ⟨ns, rfl, more, row, -⟩ := exists_row_of_components names
  have relative := isAbsolute_joinWith more row
  have pieces : (⟨joinWith ['/'] ns⟩ : Path).pieces = ns.map piece := pieces_within (.inl rfl) more row
  have named : (⟨joinWith ['/'] ns⟩ : Path).pieces.filterMap (·.2) = namesOf (dir ++ [n]) := by
    rw [← names, components, rootComponents, relative, if_neg Bool.false_ne_true, List.nil_append]
  have firstCounts : (ns.map piece).dropWhile (·.2.isNone) = ns.map piece := by
    obtain ⟨m, ns, rfl⟩ := List.exists_cons_of_ne_nil more
    have counts := isSome_componentOf (row.first m rfl)
    rw [List.map_cons, List.dropWhile_cons, if_neg (by simpa [piece, Option.isSome_iff_ne_none] using counts)]
  obtain ⟨xs, kept, leads⟩ := exists_leadsTo (fun _ => isWritten_of_mem_pieces) named
  rw [pieces, firstCounts] at kept
  refine ⟨xs, ?_, leads⟩
  rw [relativeTo?, if_pos starts, if_pos none, relative, pieces, kept, ofPieces_map_piece]

/-- Relative to a path with steps, the pieces that stand for these steps are left out. -/
theorem relativeTo?_of_ne_nil (more : base.components ≠ [])
    (below : p.components = base.components ++ namesOf (dir ++ [n])) :
    ∃ xs, p.relativeTo? base = some ⟨joinWith ['/'] (xs ++ [n])⟩ ∧ LeadsTo dir n xs := by
  have starts : p.startsWith base = true := startsWith_iff.2 ⟨_, below.symm⟩
  have written : ∀ x ∈ dropComponents (base.components.length - p.rootComponents.length) p.pieces, IsWritten x :=
    fun x member => isWritten_of_mem_pieces ((dropComponents_suffix _ _).subset member)
  have short : p.rootComponents.length ≤ base.components.length := by
    have positive := List.length_pos_of_ne_nil more
    rw [rootComponents]
    split
    · exact positive
    · exact Nat.zero_le _
  have named : (dropComponents (base.components.length - p.rootComponents.length) p.pieces).filterMap (·.2) =
      namesOf (dir ++ [n]) := by
    rw [components] at below
    have dropped := congrArg (List.drop base.components.length) below
    rw [List.drop_left, List.drop_append, List.drop_eq_nil_of_le short, List.nil_append] at dropped
    rw [filterMap_dropComponents, dropped]
  obtain ⟨xs, kept, leads⟩ := exists_leadsTo written named
  refine ⟨xs, ?_, leads⟩
  rw [relativeTo?, if_pos starts, if_neg more]
  simp only
  rw [kept, ofPieces_map_piece]

/-- What goes on from a path by names alone is found again relative to it. -/
theorem relativeTo?_of_components (below : p.components = base.components ++ namesOf (dir ++ [n])) :
    ∃ xs, p.relativeTo? base = some ⟨joinWith ['/'] (xs ++ [n])⟩ ∧ LeadsTo dir n xs := by
  by_cases none : base.components = []
  · rw [none, List.nil_append] at below
    exact relativeTo?_of_nil none below
  · exact relativeTo?_of_ne_nil none below

end Remains

end CobolAtlas.Path
