/-
# CobolAtlas.Proofs.Outline.Build -- the outline of programs, grown

The nodes of one program stand for its outline: sections come before all paragraphs, and each paragraph is put below the
last section of its name or right below the division (`ofSections_eq`, `looseParagraphs_eq`), so a file with its
divisions is a graft (`exists_file`).

Over a run of programs `Consistent` is kept: each known folder is at the place that the folders down to it lead to, and
each node of a folder but the root's is known by its path.  So a folder that is not known is missing in the tree.  To
ensure it adds it where attaching would make it, and for what is attached below it nothing changes (`ensure_spec`).  One
more program is then one attachment more (`addProgram_spec`).

The main statement is `Survey.outline_grown`.
-/
import CobolAtlas.Outline.Build
import CobolAtlas.Proofs.Outline.Graft
import CobolAtlas.Proofs.Outline.Trail
import CobolAtlas.Repository.Survey

namespace CobolAtlas

set_option autoImplicit false

namespace Build

open Growth Additions

/-! ## Sections and their paragraphs -/

section Sections

variable {p : Program} {division m : Nat} {name : Text} {front later : List ProcedureSection} {s : ProcedureSection}

/-- The places of sections by their names, the latest first. -/
def sectionPlaces (m : Nat) (sections : List ProcedureSection) : List (Text × Nat) :=
  ((sections.zipIdx m).map fun e => (e.1.name, e.2)).reverse

theorem foldl_addSection (p : Program) (division : Nat) (sections : List ProcedureSection) (additions : List Addition)
    (places : List (Text × Nat)) :
    sections.foldl (addSection p division) (additions, places) =
      (additions ++ sections.map fun s => ⟨some division, Outline.sectionData p s⟩,
        sectionPlaces additions.length sections ++ places) := by
  induction sections generalizing additions places with
  | nil => simp [sectionPlaces]
  | cons s sections ih =>
    rw [List.foldl_cons, addSection, ih]
    simp [sectionPlaces]

theorem foldl_append_singleton {α : Type} (f : α → Addition) (xs : List α) (additions : List Addition) :
    xs.foldl (fun additions x => additions ++ [f x]) additions = additions ++ xs.map f := by
  rw [List.foldl_append_eq_append, ← List.flatMap_def, ← List.map_eq_flatMap]

theorem mem_sectionPlaces {sections : List ProcedureSection} {i : Nat} :
    (name, i) ∈ sectionPlaces m sections ↔ m ≤ i ∧ ∃ s, sections[i - m]? = some s ∧ s.name = name := by
  rw [sectionPlaces, List.mem_reverse, List.mem_map]
  constructor
  · rintro ⟨⟨s, j⟩, member, same⟩
    obtain ⟨rfl, rfl⟩ := Prod.mk.inj same
    obtain ⟨after, found⟩ := List.mem_zipIdx_iff_le_and_getElem?_sub.1 member
    exact ⟨after, s, found, rfl⟩
  · rintro ⟨after, s, found, rfl⟩
    exact ⟨(s, i), List.mem_zipIdx_iff_le_and_getElem?_sub.2 ⟨after, found⟩, rfl⟩

theorem mem_of_lookup {places : List (Text × Nat)} {i : Nat} (found : places.lookup name = some i) :
    (name, i) ∈ places := by
  obtain ⟨before, after, rfl, -⟩ := List.lookup_eq_some_iff.1 found
  simp

/-- No section of the name is known. -/
theorem lookup_sectionPlaces_eq_none_iff {sections : List ProcedureSection} :
    (sectionPlaces m sections).lookup name = none ↔ ∀ s ∈ sections, s.name ≠ name := by
  rw [List.lookup_eq_none_iff]
  constructor
  · intro unknown s member same
    obtain ⟨k, found⟩ := List.mem_iff_getElem?.1 member
    have known : (name, m + k) ∈ sectionPlaces m sections :=
      mem_sectionPlaces.2 ⟨Nat.le_add_right _ _, s, by rwa [Nat.add_sub_cancel_left], same⟩
    simpa using unknown _ known
  · rintro others ⟨name', i⟩ known
    obtain ⟨-, s, found, rfl⟩ := mem_sectionPlaces.1 known
    simpa using (others s (List.mem_of_getElem? found)).symm

/-- Of the sections of a name the last is known. -/
theorem lookup_sectionPlaces_iff :
    (sectionPlaces m (front ++ s :: later)).lookup name = some (m + front.length) ↔
      s.name = name ∧ ∀ t ∈ later, t.name ≠ name := by
  have split : sectionPlaces m (front ++ s :: later) =
      sectionPlaces (m + front.length + 1) later ++ (s.name, m + front.length) :: sectionPlaces m front := by
    simp [sectionPlaces, List.zipIdx_append]
  rw [split, List.lookup_append]
  cases found : (sectionPlaces (m + front.length + 1) later).lookup name with
  | some i =>
    obtain ⟨after, t, member, same⟩ := mem_sectionPlaces.1 (mem_of_lookup found)
    refine iff_of_false (fun equal => ?_) fun last => last.2 t (List.mem_of_getElem? member) same
    have place := Option.some.inj equal
    omega
  | none =>
    rw [Option.none_or, and_iff_left (lookup_sectionPlaces_eq_none_iff.1 found), List.lookup_cons]
    cases here : name == s.name with
    | true => simpa using (beq_iff_eq.1 here).symm
    | false =>
      refine iff_of_false (fun equal => ?_) fun same => ?_
      · obtain ⟨after, t, member, -⟩ := mem_sectionPlaces.1 (mem_of_lookup equal)
        have bound := (List.getElem?_eq_some_iff.1 member).1
        omega
      · rw [same, beq_self_eq_true] at here
        cases here

/-- A paragraph stands below the last section of its name. -/
theorem parentOf_eq_place_iff {q : Paragraph} (new : division < m) :
    parentOf division (sectionPlaces m (front ++ s :: later)) q = m + front.length ↔
      q.inSection = some s.name ∧ ∀ t ∈ later, t.name ≠ s.name := by
  rw [parentOf]
  cases q.inSection with
  | none =>
    refine iff_of_false (fun same => ?_) fun last => by cases last.1
    simp at same
    omega
  | some name =>
    rw [Option.bind_some]
    have found : (sectionPlaces m (front ++ s :: later)).lookup name = some (m + front.length) ↔
        s.name = name ∧ ∀ t ∈ later, t.name ≠ name := lookup_sectionPlaces_iff
    constructor
    · intro same
      cases lookup : (sectionPlaces m (front ++ s :: later)).lookup name with
      | none =>
        rw [lookup, Option.getD_none] at same
        omega
      | some i =>
        rw [lookup, Option.getD_some] at same
        rw [lookup, same] at found
        obtain ⟨rfl, last⟩ := found.1 rfl
        exact ⟨rfl, last⟩
    · rintro ⟨same, last⟩
      obtain rfl := Option.some.inj same
      rw [found.2 ⟨rfl, last⟩, Option.getD_some]

/-- The sections with the paragraphs that stand below their places. -/
theorem ofSections_eq (p : Program) {sections : List ProcedureSection} (split : front ++ later = sections)
    (new : division < m) :
    Outline.ofSections p later = (later.zipIdx (m + front.length)).map fun e =>
      .node (Outline.sectionData p e.1) ((p.paragraphs.filter fun q =>
        parentOf division (sectionPlaces m sections) q = e.2).map (Outline.ofParagraph p.file)) := by
  induction later generalizing front with
  | nil => rfl
  | cons s later ih =>
    have paragraphs :
        (if later.any (·.name == s.name) then [] else (p.paragraphsIn s.name).map (Outline.ofParagraph p.file)) =
        (p.paragraphs.filter fun q => parentOf division (sectionPlaces m sections) q = m + front.length).map
          (Outline.ofParagraph p.file) := by
      simp only [← split, parentOf_eq_place_iff new]
      cases again : later.any (·.name == s.name) with
      | true =>
        obtain ⟨t, member, same⟩ := List.any_eq_true.1 again
        rw [if_pos rfl, List.filter_eq_nil_iff.2, List.map_nil]
        intro q _ last
        exact (of_decide_eq_true last).2 t member (beq_iff_eq.1 same)
      | false =>
        have others : ∀ t ∈ later, t.name ≠ s.name := fun t member same => by
          rw [List.any_eq_false] at again
          exact again t member (beq_iff_eq.2 same)
        rw [if_neg Bool.false_ne_true, Program.paragraphsIn]
        simp only [and_iff_left others, beq_eq_decide]
    have split' : front ++ [s] ++ later = sections := by simpa using split
    rw [Outline.ofSections, List.zipIdx_cons, List.map_cons, paragraphs, ih split', List.length_append,
      List.length_singleton, Nat.add_assoc]

/-- What stands in no listed section is right below the division. -/
theorem looseParagraphs_eq (p : Program) (new : division < m) :
    p.looseParagraphs =
      p.paragraphs.filter fun q => parentOf division (sectionPlaces m p.sections) q = division := by
  refine List.filter_congr fun q _ => ?_
  rw [parentOf]
  cases q.inSection with
  | none => simp
  | some name =>
    rw [Option.bind_some]
    cases found : (sectionPlaces m p.sections).lookup name with
    | none =>
      have unknown := lookup_sectionPlaces_eq_none_iff.1 found
      simpa using unknown
    | some i =>
      obtain ⟨after, s, member, same⟩ := mem_sectionPlaces.1 (mem_of_lookup found)
      have known : p.sections.any (·.name == name) = true :=
        List.any_eq_true.2 ⟨s, List.mem_of_getElem? member, beq_iff_eq.2 same⟩
      have apart : i ≠ division := by omega
      simp [known, apart]

/-- A paragraph stands below the division or one of its sections. -/
theorem parentOf_bounds (places : List ProcedureSection) (q : Paragraph) (division : Nat) :
    division ≤ parentOf division (sectionPlaces (division + 1) places) q ∧
      parentOf division (sectionPlaces (division + 1) places) q ≤ division + places.length := by
  rw [parentOf]
  cases found : q.inSection.bind fun name => (sectionPlaces (division + 1) places).lookup name with
  | none => simp
  | some i =>
    obtain ⟨name, -, lookup⟩ := Option.bind_eq_some_iff.1 found
    obtain ⟨after, s, member, -⟩ := mem_sectionPlaces.1 (mem_of_lookup lookup)
    have bound := (List.getElem?_eq_some_iff.1 member).1
    rw [Option.getD_some]
    omega

end Sections

/-! ## Files -/

section File

variable {p : Program} {file : Nat} {a : Additions}

theorem addProcedure_eq (p : Program) (division : Nat) (additions : List Addition) :
    addProcedure p division additions = additions ++
      ((p.sections.map fun s => ⟨some division, Outline.sectionData p s⟩) ++
        p.paragraphs.map fun q => ⟨some (parentOf division (sectionPlaces additions.length p.sections) q),
          (Outline.ofParagraph p.file q).data⟩) := by
  rw [addProcedure, foldl_addSection, foldl_append_singleton, List.append_nil, List.append_assoc]

/-- Nodes of a file that are below the place `q` or new ones; none of them is a folder. -/
def IsContent (q : Nat) (more : List Addition) : Prop :=
  ∀ b ∈ more, (∃ p, b.parent = some p ∧ q ≤ p) ∧ b.data.kind.isFolder = false

theorem isContent_rows {α β : Type} {n : Nat} {data : NodeData} {rows : List α} {rowData : α → NodeData}
    {leaves : List β} {parent : β → Nat} {leafData : β → NodeData} (after : file ≤ n)
    (inner : ∀ x ∈ leaves, n ≤ parent x) (plain : data.kind.isFolder = false)
    (plainRows : ∀ r ∈ rows, (rowData r).kind.isFolder = false)
    (plainLeaves : ∀ x ∈ leaves, (leafData x).kind.isFolder = false) :
    IsContent file (⟨some file, data⟩ :: ((rows.map fun r => ⟨some n, rowData r⟩) ++
      leaves.map fun x => ⟨some (parent x), leafData x⟩)) := by
  refine List.forall_mem_cons.2 ⟨⟨⟨file, rfl, Nat.le_refl _⟩, plain⟩, List.forall_mem_append.2 ⟨?_, ?_⟩⟩
  · exact List.forall_mem_map.2 fun r member => ⟨⟨n, rfl, after⟩, plainRows r member⟩
  · exact List.forall_mem_map.2 fun x member =>
      ⟨⟨parent x, rfl, Nat.le_trans after (inner x member)⟩, plainLeaves x member⟩

/-- The nodes of a division stand for it below the file. -/
theorem exists_division (p : Program) (name : Text) (earlier : file < a.list.length) :
    ∃ (a' : Additions) (more : List Addition), a'.list = addDivision p file a.list name ∧ a'.list = a.list ++ more ∧
      IsContent file more ∧ Grafts a a' file (Outline.ofDivision p name) := by
  have after : file ≤ a.list.length := Nat.le_of_lt earlier
  by_cases isData : name = "DATA".toList
  · obtain ⟨a', list, grafts⟩ := a.exists_rows (NodeData.plain name .division p.file) p.dataSections
      (fun s => (Outline.ofDataSection p.file s).data) ([] : List Empty) Empty.elim Empty.elim earlier nofun
    refine ⟨a', _, ?_, list, ?_, ?_⟩
    · rw [list, addDivision, if_pos isData, foldl_append_singleton]
      simp
    · exact isContent_rows after nofun rfl (fun _ _ => rfl) nofun
    · have leaves : ((p.dataSections.zipIdx (a.list.length + 1)).map fun e =>
          Outline.node (Outline.ofDataSection p.file e.1).data []) =
          p.dataSections.map (Outline.ofDataSection p.file) := by
        conv_rhs => rw [← List.zipIdx_map_fst (a.list.length + 1) p.dataSections, List.map_map]
        rfl
      rw [Outline.ofDivision, if_pos isData, ← leaves]
      simpa using grafts
  · by_cases isProcedure : name = "PROCEDURE".toList
    · obtain ⟨a', list, grafts⟩ := a.exists_rows (NodeData.plain name .division p.file) p.sections
        (Outline.sectionData p) p.paragraphs (parentOf a.list.length (sectionPlaces (a.list.length + 1) p.sections))
        (fun q => (Outline.ofParagraph p.file q).data) earlier fun q _ => parentOf_bounds p.sections q a.list.length
      refine ⟨a', _, ?_, list, ?_, ?_⟩
      · rw [list, addDivision, if_neg isData, if_pos isProcedure, addProcedure_eq]
        simp
      · exact isContent_rows after (fun q _ => (parentOf_bounds p.sections q _).1) rfl (fun _ _ => rfl) fun _ _ => rfl
      · rw [Outline.ofDivision, if_neg isData, if_pos isProcedure,
          ofSections_eq p (List.nil_append p.sections) (Nat.lt_succ_self a.list.length),
          looseParagraphs_eq p (Nat.lt_succ_self a.list.length)]
        exact grafts
    · obtain ⟨a', list, grafts⟩ := a.exists_node (NodeData.plain name .division p.file) earlier
      refine ⟨a', _, ?_, list, ?_, ?_⟩
      · rw [list, addDivision, if_neg isData, if_neg isProcedure]
      · exact List.forall_mem_singleton.2 ⟨⟨file, rfl, Nat.le_refl _⟩, rfl⟩
      · rw [Outline.ofDivision, if_neg isData, if_neg isProcedure]
        exact grafts

/-- So do the nodes of several divisions, one after another. -/
theorem exists_divisions (p : Program) (names : List Text) {data : NodeData} {os : List Outline}
    (here : a.below? file = some (.node data os)) :
    ∃ (a' : Additions) (more : List Addition), a'.list = names.foldl (addDivision p file) a.list ∧
      a'.list = a.list ++ more ∧ IsContent file more ∧
      a'.below? file = some (.node data (os ++ names.map (Outline.ofDivision p))) := by
  induction names generalizing a os with
  | nil => exact ⟨a, [], rfl, (List.append_nil _).symm, nofun, by rw [here, List.map_nil, List.append_nil]⟩
  | cons name names ih =>
    obtain ⟨a', more, list, split, content, grafts⟩ := exists_division p name (lt_of_below? here)
    have attached : a'.below? file = some (Outline.attach (Outline.ofDivision p name) [] (.node data os)) :=
      grafts.below?_of_descend rfl here
    rw [Outline.attach] at attached
    obtain ⟨a'', rest, list', split', content', outline⟩ := ih attached
    refine ⟨a'', more ++ rest, ?_, ?_, List.forall_mem_append.2 ⟨content, content'⟩, ?_⟩
    · rw [list', list, List.foldl_cons]
    · rw [split', split, List.append_assoc]
    · rw [outline, List.append_assoc, List.singleton_append, List.map_cons]

/-- The nodes of a file stand for its program. -/
theorem exists_file (p : Program) {parent : Nat} (earlier : parent < a.list.length) :
    ∃ (a' : Additions) (more : List Addition), a'.list = addFile p parent a.list ∧ a'.list = a.list ++ more ∧
      (∀ b ∈ more, b.data.kind.isFolder = false) ∧ Grafts a a' parent (Outline.ofProgram p) := by
  obtain ⟨a₁, list, grafts⟩ := a.exists_node (Outline.ofProgram p).data earlier
  obtain ⟨a₂, more, list', split, content, outline⟩ := exists_divisions p p.divisions grafts.outline
  have whole : a₂.list = a.list ++ ⟨some parent, (Outline.ofProgram p).data⟩ :: more := by
    rw [split, list, List.append_assoc, List.singleton_append]
  have grafts' := grafts_of_block whole (fun b member => (content b member).1) outline
  refine ⟨a₂, _, by rw [list', list, addFile], whole, ?_, grafts'⟩
  exact List.forall_mem_cons.2 ⟨rfl, fun b member => (content b member).2⟩

end File

/-! ## Folders -/

section Folders

variable {root folder d : Path} {b : Build} {a : Additions} {o : Outline} {above : List Path} {i q : Nat}

theorem placeOf?_congr {d' : Path} (same : d.components = d'.components) : b.placeOf? d = b.placeOf? d' := by
  simp only [placeOf?, Path.same, same]

theorem placeOf?_addFolder : (b.addFolder q folder).placeOf? d =
    if folder.same d then some b.additions.length else b.placeOf? d := by
  rw [placeOf?, addFolder, List.find?_cons]
  cases folder.same d <;> rfl

/-- Each known folder is where its folders lead, and each folder but the root is known. -/
structure Consistent (root : Path) (b : Build) (a : Additions) : Prop where
  list : a.list = b.additions
  first : firstParentless? b.additions = some 0
  rootKnown : b.placeOf? root = some 0
  known : ∀ d i, b.placeOf? d = some i →
    root.components <+: d.components ∧ descend? a.list (Outline.foldersDownTo root d) 0 = some i
  all : ∀ i, ∀ c ∈ placesBelow a.list i, ∀ d, isFolderAt a.list d c = true → b.placeOf? d = some c

theorem Consistent.nonempty (consistent : Consistent root b a) : 0 < a.list.length := by
  rw [consistent.list]
  refine List.length_pos_of_ne_nil fun none => ?_
  have first := consistent.first
  rw [none] at first
  cases first

theorem Consistent.missing (consistent : Consistent root b a) (new : b.placeOf? folder = none) :
    ∀ c ∈ placesBelow a.list q, isFolderAt a.list folder c = false := by
  intro c isChild
  rw [Bool.eq_false_iff]
  intro isFolder
  rw [consistent.all q c isChild folder isFolder] at new
  cases new

section OneMore

variable {a' : Additions} (consistent : Consistent root b a)
  (grafts : Grafts a a' q (.node (Outline.emptyFolder folder) []))
  (list : a'.list = a.list ++ [⟨some q, Outline.emptyFolder folder⟩])
  (trail : Outline.foldersDownTo root folder = above ++ [folder]) (new : b.placeOf? folder = none)

include consistent list

theorem isFolderAt_new (d : Path) : isFolderAt a'.list d b.additions.length = folder.same d := by
  rw [← consistent.list, isFolderAt, list, List.getElem?_concat_length]
  rfl

include grafts trail new

/-- A new folder is where its folders lead. -/
theorem descend?_new (found : descend? a.list above 0 = some q) :
    descend? a'.list (Outline.foldersDownTo root folder) 0 = some b.additions.length := by
  have earlier : q < a.list.length := lt_of_descend consistent.nonempty found
  have noneBefore : (placesBelow a.list q).find? (isFolderAt a'.list folder) = none := by
    rw [List.find?_eq_none]
    intro c isChild
    rw [isFolderAt_of_starts grafts.starts (lt_of_mem_placesBelow isChild).2, consistent.missing new c isChild]
    exact Bool.false_ne_true
  have atEnd : isFolderAt a'.list folder b.additions.length = true := by
    rw [isFolderAt_new consistent list]
    exact Path.same_iff.2 rfl
  rw [trail, descend?_append, descend?_mono grafts.starts found, Option.bind_some, descend?,
    grafts.children q earlier, if_pos rfl, List.find?_append, noneBefore, Option.none_or, consistent.list,
    List.find?_singleton, if_pos atEnd]
  rfl

/-- With a new folder the known folders are known still. -/
theorem Consistent.addFolder (below : root.components <+: folder.components)
    (found : descend? a.list above 0 = some q) : Consistent root (b.addFolder q folder) a' := by
  have leads := descend?_new consistent grafts list trail new found
  have unknown (d : Path) (same : folder.same d = true) : b.placeOf? d = none := by
    rwa [← placeOf?_congr (Path.same_iff.1 same)]
  constructor
  case list =>
    rw [list, consistent.list]
    rfl
  case first => exact firstParentless?_append consistent.first _
  case rootKnown =>
    rw [placeOf?_addFolder, if_neg, consistent.rootKnown]
    intro same
    have isKnown := consistent.rootKnown
    rw [unknown root same] at isKnown
    cases isKnown
  case known =>
    intro d i isKnown
    rw [placeOf?_addFolder] at isKnown
    split at isKnown
    · rename_i same
      have components := Path.same_iff.1 same
      obtain rfl := Option.some.inj isKnown
      exact ⟨components ▸ below, by rw [← leads, descend?_congr (Outline.foldersDownTo_congr components.symm)]⟩
    · obtain ⟨inside, leads⟩ := consistent.known d i isKnown
      exact ⟨inside, descend?_mono grafts.starts leads⟩
  case all =>
    intro i c isChild d isFolder
    rw [list] at isChild
    rw [placeOf?_addFolder]
    rcases mem_placesBelow_append isChild with ⟨old, bound⟩ | ⟨k, x, isNew, rfl⟩
    · rw [isFolderAt_of_starts grafts.starts bound] at isFolder
      have isKnown := consistent.all i c old d isFolder
      rw [if_neg, isKnown]
      intro same
      rw [unknown d same] at isKnown
      cases isKnown
    · -- of one more node the first is the only one
      have bound := (List.getElem?_eq_some_iff.1 isNew).1
      obtain rfl : k = 0 := Nat.lt_one_iff.1 bound
      rw [Nat.add_zero, consistent.list] at isFolder ⊢
      rw [isFolderAt_new consistent list] at isFolder
      rw [if_pos isFolder]

end OneMore

/-- One more folder below the last of those above it, where it is not known yet. -/
theorem addFolder_spec (consistent : Consistent root b a) (here : a.below? 0 = some o)
    (below : root.components <+: folder.components) (new : b.placeOf? folder = none)
    (trail : Outline.foldersDownTo root folder = above ++ [folder]) (found : descend? a.list above 0 = some q) :
    ∃ a' o', Consistent root (b.addFolder q folder) a' ∧ a'.below? 0 = some o' ∧
      descend? a'.list (Outline.foldersDownTo root folder) 0 = some b.additions.length ∧
      ∀ leaf more,
        Outline.attach leaf (above ++ folder :: more) o' = Outline.attach leaf (above ++ folder :: more) o := by
  have earlier : q < a.list.length := lt_of_descend consistent.nonempty found
  obtain ⟨a', list, grafts⟩ := a.exists_node (Outline.emptyFolder folder) earlier
  exact ⟨a', _, consistent.addFolder grafts list trail new below found, grafts.below?_of_descend found here,
    descend?_new consistent grafts list trail new found, attach_attach_of_descend found here (consistent.missing new)⟩

/-- **A folder is ensured**: its place is where its folders lead, and for what is attached below it nothing changes.
No folder becomes known but those on the way. -/
theorem ensure_spec (consistent : Consistent root b a) (here : a.below? 0 = some o) {steps : Nat}
    (enough : folder.components.length < steps) :
    ∃ a' o', Consistent root (ensure root steps folder b).2 a' ∧ a'.below? 0 = some o' ∧
      descend? a'.list (Outline.foldersDownTo root folder) 0 = some (ensure root steps folder b).1 ∧
      (∀ leaf more, Outline.attach leaf (Outline.foldersDownTo root folder ++ more) o' =
        Outline.attach leaf (Outline.foldersDownTo root folder ++ more) o) ∧
      ∀ d, ¬d.components <+: folder.components → (ensure root steps folder b).2.placeOf? d = b.placeOf? d := by
  induction folder using Path.induction generalizing steps with
  | step folder ih =>
    obtain ⟨steps, rfl⟩ := Nat.exists_eq_succ_of_ne_zero (Nat.ne_of_gt (Nat.zero_lt_of_lt enough))
    rw [ensure]
    cases isKnown : b.placeOf? folder with
    | some place =>
      exact ⟨a, o, consistent, here, (consistent.known folder place isKnown).2, fun _ _ => rfl, fun _ _ => rfl⟩
    | none =>
      have atRoot : (b.placeOf? root).getD 0 = 0 := by rw [consistent.rootKnown, Option.getD_some]
      cases inside : folder.startsWith root with
      | false =>
        have outside : Outline.foldersDownTo root folder = [] := by rw [Outline.foldersDownTo, inside]; rfl
        rw [outside]
        simp only [if_neg Bool.false_ne_true, atRoot]
        exact ⟨a, o, consistent, here, rfl, fun _ _ => rfl, fun _ _ => trivial⟩
      | true =>
        have below := Path.startsWith_iff.1 inside
        have above : root.IsAbove folder := by
          refine ⟨below, fun same => ?_⟩
          rw [← placeOf?_congr same, consistent.rootKnown] at isKnown
          cases isKnown
        have apart {d : Path} (notAbove : ¬d.components <+: folder.components) : ¬folder.same d = true := fun same =>
          notAbove (Path.same_iff.1 same ▸ List.prefix_rfl)
        simp only [if_pos]
        cases up : folder.parent with
        | none =>
          have trail : Outline.foldersDownTo root folder = [] ++ [folder] := Outline.foldersDownTo_of_top above up
          obtain ⟨a', o', consistent', here', leads, attached⟩ :=
            addFolder_spec consistent here below isKnown trail rfl
          simp only [atRoot]
          refine ⟨a', o', consistent', here', leads, fun leaf more => ?_, fun d notAbove => ?_⟩
          · rw [trail]
            exact attached leaf more
          · rw [placeOf?_addFolder, if_neg (apart notAbove)]
        | some parent =>
          obtain ⟨c, components⟩ := Path.components_of_parent up
          rw [components, List.length_append, List.length_singleton] at enough
          obtain ⟨a', o', consistent', here', leads, attached, unchanged⟩ :=
            ih parent up (Nat.lt_of_succ_lt_succ enough)
          have trail := Outline.foldersDownTo_of_parent above up
          have new : (ensure root steps parent b).2.placeOf? folder = none := by
            rw [unchanged folder, isKnown]
            exact (further_of_concat (Path.components_of_parent up)).2
          obtain ⟨a'', o'', consistent'', here'', leads', attached'⟩ :=
            addFolder_spec consistent' here' below new trail leads
          refine ⟨a'', o'', consistent'', here'', leads', fun leaf more => ?_, fun d notAbove => ?_⟩
          · rw [trail, List.append_assoc, List.singleton_append, attached', attached]
          · rw [placeOf?_addFolder, if_neg (apart notAbove), unchanged]
            intro aboveParent
            exact notAbove (aboveParent.trans (further_of_concat (Path.components_of_parent up)).1)

/-- **One more program**: its file is attached below the folders of its path. -/
theorem addProgram_spec (consistent : Consistent root b a) (here : a.below? 0 = some o) (p : Program) :
    ∃ a', Consistent root (addProgram root b p) a' ∧
      a'.below? 0 = some (Outline.attach (Outline.ofProgram p) (Outline.foldersOf root ⟨p.file⟩) o) := by
  rw [addProgram]
  have enough := Nat.lt_succ_self ((Path.mk p.file).parent.getD root).components.length
  obtain ⟨a₁, o₁, consistent₁, here₁, leads, attached, -⟩ := ensure_spec consistent here enough
  obtain ⟨a₂, more, list, split, plain, grafts⟩ := exists_file p (lt_of_descend consistent₁.nonempty leads)
  refine ⟨a₂, ?_, ?_⟩
  · constructor
    case list => rw [list, consistent₁.list]
    case first =>
      simp only
      rw [← consistent₁.list, ← list, split, consistent₁.list]
      exact firstParentless?_append consistent₁.first more
    case rootKnown => exact consistent₁.rootKnown
    case known => exact fun d i isKnown => (consistent₁.known d i isKnown).imp_right (descend?_mono grafts.starts)
    case all =>
      intro i c isChild d isFolder
      rw [split] at isChild
      rcases mem_placesBelow_append isChild with ⟨old, bound⟩ | ⟨k, x, isNew, rfl⟩
      · rw [isFolderAt_of_starts grafts.starts bound] at isFolder
        exact consistent₁.all i c old d isFolder
      · -- a file and what is below it are no folders
        have kind := plain x (List.mem_of_getElem? isNew)
        rw [isFolderAt, split, List.getElem?_append_right (Nat.le_add_right _ _), Nat.add_sub_cancel_left, isNew,
          Option.any_some, Outline.isFolder_eq_true_iff, ← NodeKind.isFolder_iff] at isFolder
        have isFolder : x.data.kind.isFolder = true := isFolder.1
        rw [kind] at isFolder
        cases isFolder
  · have whole := attached (Outline.ofProgram p) []
    rw [List.append_nil] at whole
    rw [grafts.below?_of_descend leads here₁, whole, Outline.foldersOf_eq]

theorem start_consistent (root : Path) :
    ∃ a, Consistent root (start root) a ∧ a.below? 0 = some (.node (Outline.emptyRoot root.shown).data []) := by
  have childless (i : Nat) : placesBelow (start root).additions i = [] := rfl
  refine ⟨⟨(start root).additions, ?_⟩, ?_, ?_⟩
  · intro i b found p below
    cases i with
    | zero =>
      obtain rfl := Option.some.inj found
      cases below
    | succ i => cases found
  · constructor
    case list => rfl
    case first => rfl
    case rootKnown =>
      have same : root.same root = true := Path.same_iff.2 rfl
      rw [placeOf?, start, List.find?_singleton, if_pos same]
      rfl
    case known =>
      intro d i isKnown
      rw [placeOf?, start, List.find?_singleton] at isKnown
      split at isKnown
      · rename_i same
        have components := Path.same_iff.1 same
        obtain rfl := Option.some.inj isKnown
        rw [Outline.foldersDownTo_of_same components.symm, components]
        exact ⟨List.prefix_rfl, rfl⟩
      · cases isKnown
    case all =>
      intro i c isChild
      rw [childless] at isChild
      exact absurd isChild List.not_mem_nil
  · rw [below?_eq, childless]
    rfl

theorem foldl_attach_node (root : Path) (programs : List Program) (data data' : NodeData) (os : List Outline) :
    programs.foldl (fun o p => Outline.attach (Outline.ofProgram p) (Outline.foldersOf root ⟨p.file⟩) o)
        (.node data os) =
      .node data (programs.foldl (fun o p => Outline.attach (Outline.ofProgram p) (Outline.foldersOf root ⟨p.file⟩) o)
        (.node data' os)).children := by
  induction programs generalizing os with
  | nil => rfl
  | cons p programs ih =>
    rw [List.foldl_cons, List.foldl_cons]
    cases Outline.foldersOf root ⟨p.file⟩ with
    | nil => exact ih _
    | cons folder folders => exact ih _

/-- **All programs, one after another.** -/
theorem ofPrograms_spec (root : Path) (programs : List Program) :
    ∃ a, Consistent root (ofPrograms root programs) a ∧
      a.below? 0 = some (.node (Outline.emptyRoot root.shown).data (Outline.ofPrograms root programs).children) := by
  have run (programs : List Program) {b : Build} {a : Additions} {o : Outline} (consistent : Consistent root b a)
      (here : a.below? 0 = some o) : ∃ a', Consistent root (programs.foldl (addProgram root) b) a' ∧
        a'.below? 0 = some (programs.foldl (fun o p =>
          Outline.attach (Outline.ofProgram p) (Outline.foldersOf root ⟨p.file⟩) o) o) := by
    induction programs generalizing b a o with
    | nil => exact ⟨a, consistent, here⟩
    | cons p programs ih =>
      obtain ⟨a', consistent', here'⟩ := addProgram_spec consistent here p
      exact ih consistent' here'
  obtain ⟨a₀, consistent, here⟩ := start_consistent root
  obtain ⟨a, consistent', outline⟩ := run programs consistent here
  rw [foldl_attach_node root programs _ (Outline.emptyRoot root).data []] at outline
  exact ⟨a, consistent', outline⟩

end Folders

end Build

/-- **The outline of a survey is grown node by node.**  The nodes of its programs can be added in the order in which
they come, each below a node that is there.  The grown outline is that of the survey, and a path is found in it at the
node that is found in the survey's. -/
theorem Survey.outline_grown (s : Survey) :
    ∃ g, Growth.empty.run? (Build.ofPrograms s.root s.programs).additions = some g ∧ g.outline? = some s.outline ∧
      ∀ path, (g.find? path).bind (g.subtree? g.entries.length) = s.outline.find? path := by
  obtain ⟨a, consistent, outline⟩ := Build.ofPrograms_spec s.root s.programs
  obtain ⟨g, ran, follows⟩ := a.exists_grown
  rw [consistent.list] at ran
  refine ⟨g, ran, ?_⟩
  obtain ⟨root, isRoot, first⟩ : ∃ root, a.root? = some root ∧ root.val = 0 := by
    have root := follows.root
    rw [consistent.list, consistent.first, Additions.root_eq follows, Option.map_eq_some_iff] at root
    exact root
  have whole : a.below root = s.outline := by
    have here : a.below? root.val = some (a.below root) := dif_pos root.isLt
    rw [first, outline] at here
    exact (Option.some.inj here).symm
  refine ⟨by rw [Additions.outline?_eq follows, isRoot, Option.map_some, whole], fun path => ?_⟩
  rw [Additions.find?_eq follows, isRoot, Option.bind_some, ← whole, Additions.find?_below]
  cases (a.places root).find? fun i => (a.nodeAt i).path == path with
  | none => rfl
  | some i => exact Additions.subtree?_eq_below follows i (by rw [follows.length]; omega)

end CobolAtlas
