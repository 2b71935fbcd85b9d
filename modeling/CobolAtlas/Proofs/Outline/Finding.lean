/-
# CobolAtlas.Proofs.Outline.Finding -- what is found by its path

All nodes below a file carry the path of the file, and the file comes before them.  So what is found by a path is the
first folder or file that carries it (`find?_eq_find?_entries`).

In the outline of a scan (`IsScan`) no two folders or files carry one path (`nodup_entries`): a path in normal form is
the only one of its steps, no two folders take the same steps, and no file is where a folder is.  So each file and each
folder is found by its own path, and nothing is found by any other text (`find?_ofPrograms`).
-/
import CobolAtlas.Proofs.Outline.Folders
import CobolAtlas.Proofs.Outline.Lines
import CobolAtlas.Proofs.Path.Normal

namespace CobolAtlas.Outline

set_option autoImplicit false

/-! ## Folders and files -/

/-- Does the node stand for an entry of the file system? -/
def isEntry (o : Outline) : Bool := o.data.kind.isFolder || o.data.kind.isFile

/-- The folders and files among the nodes of an outline. -/
def entries (o : Outline) : List Outline := o.preorder.filter isEntry

theorem entries_perm (o : Outline) : o.entries.Perm (o.folders ++ o.files) := by
  have folders_ : o.entries.filter (·.data.kind.isFolder) = o.folders := by
    rw [entries, List.filter_filter, folders]
    refine List.filter_congr fun x _ => ?_
    rw [isEntry]
    cases x.data.kind <;> rfl
  have files_ : o.entries.filter (fun x => !x.data.kind.isFolder) = o.files := by
    rw [entries, List.filter_filter, files]
    refine List.filter_congr fun x _ => ?_
    rw [isEntry]
    cases x.data.kind <;> rfl
  have parts := List.filter_append_perm (·.data.kind.isFolder) o.entries
  rw [folders_, files_] at parts
  exact parts.symm

theorem path_of_mem_ofProgram {p : Program} {x : Outline} (member : x ∈ (ofProgram p).preorder) :
    x.data.path = p.file := by
  rw [preorder_eq] at member
  rcases List.mem_cons.1 member with rfl | below
  · rfl
  · cases partOf_of_mem_nodesBelow below <;> rfl

/-- By the path of a program its file is found, and nothing below it. -/
theorem find?_ofProgram {p : Program} {path : Text} {x : Outline} (found : (ofProgram p).find? path = some x) :
    x = ofProgram p := by
  have carries : p.file = path := by
    rw [← path_of_mem_ofProgram (List.mem_of_find?_eq_some found)]
    simpa using List.find?_some found
  have first : ((ofProgram p).data.path == path) = true := beq_iff_eq.2 carries
  rw [find?, preorder_eq, List.find?_cons, first] at found
  exact (Option.some.inj found).symm

/-- Right below folders there are folders and files of programs. -/
def HoldsFiles (o : Outline) : Prop :=
  ∀ x ∈ o.preorder, x.data.kind = .folder → ∀ y ∈ x.children, y.data.kind = .folder ∨ ∃ p, y = ofProgram p

theorem isEntry_of_find? {o x : Outline} {path : Text} (folder : o.data.kind = .folder) (holds : o.HoldsFiles)
    (found : o.find? path = some x) : x.isEntry = true := by
  induction o using induction with
  | step o ih =>
    rw [find?, preorder_eq, List.find?_cons] at found
    split at found
    · obtain rfl := Option.some.inj found
      rw [isEntry, folder]
      rfl
    · rw [List.find?_flatMap] at found
      obtain ⟨child, isChild, inChild⟩ := List.exists_of_findSome?_eq_some found
      rcases holds o (mem_preorder_self o) folder child isChild with isFolder | ⟨p, rfl⟩
      · exact ih child isChild isFolder (fun y member => holds y (mem_preorder_of_mem_children isChild member)) inChild
      · rw [find?_ofProgram inChild]
        rfl

/-- What is found by a path is the first folder or file that carries it. -/
theorem find?_eq_find?_entries {o : Outline} (folder : o.data.kind = .folder) (holds : o.HoldsFiles) (path : Text) :
    o.find? path = o.entries.find? (·.data.path == path) := by
  cases found : o.find? path with
  | none =>
    rw [find?, List.find?_eq_none] at found
    exact (List.find?_eq_none.2 fun x member => found x (List.mem_of_mem_filter member)).symm
  | some x =>
    have isEntry_ := isEntry_of_find? folder holds found
    rw [find?, List.find?_eq_some_iff_append] at found
    obtain ⟨carries, before, after, parts, none⟩ := found
    rw [entries, parts, List.filter_append, List.filter_cons_of_pos isEntry_]
    symm
    rw [List.find?_eq_some_iff_append]
    exact ⟨carries, _, _, rfl, fun y member => none y (List.mem_of_mem_filter member)⟩

/-- The one folder or file of a path, and what is found by it. -/
structure IsFoundAt (o : Outline) (path : Text) (x : Outline) : Prop where
  only : o.entries.filter (·.data.path == path) = [x]
  found : o.find? path = some x

/-- Where no two folders or files carry one path, each is found by its own. -/
theorem isFoundAt_of_nodup {o x : Outline} (folder : o.data.kind = .folder) (holds : o.HoldsFiles)
    (nodup : (o.entries.map (·.data.path)).Nodup) (member : x ∈ o.entries) : o.IsFoundAt x.data.path x := by
  have once : (o.entries.filter (·.data.path == x.data.path)).length = 1 := by
    rw [← List.countP_eq_length_filter]
    have count := List.count_eq_one_of_mem nodup (List.mem_map_of_mem member)
    rwa [List.count, List.countP_map] at count
  obtain ⟨y, only⟩ := List.length_eq_one_iff.1 once
  have among : x ∈ o.entries.filter (·.data.path == x.data.path) := List.mem_filter.2 ⟨member, beq_self_eq_true _⟩
  rw [only, List.mem_singleton] at among
  obtain rfl := among
  refine ⟨only, ?_⟩
  rw [find?_eq_find?_entries folder holds, ← List.head?_filter, only]
  rfl

/-! ## The folders of an outline of programs -/

/-- The folders of a folder are itself and those of its children. -/
theorem data_mem_folders_node_iff {data d : NodeData} {children : List Outline} (folder : data.kind = .folder) :
    d ∈ (node data children).folders.map Outline.data ↔ d = data ∨ ∃ x ∈ children, d ∈ x.folders.map Outline.data := by
  rw [folders_of_folder (o := node data children) folder, List.map_cons, List.mem_cons, List.map_flatMap,
    List.mem_flatMap]
  rfl

/-- A folder that is attached is of the trail, or of before. -/
theorem data_of_mem_folders_attach {leaf : Outline} (noFolder : ∀ x ∈ leaf.preorder, x.data.kind.isFolder = false)
    {trail : List Path} {o : Outline} (folder : o.data.kind = .folder) {d : NodeData}
    (member : d ∈ (attach leaf trail o).folders.map data) :
    d ∈ o.folders.map data ∨ d ∈ trail.map emptyFolder := by
  induction trail generalizing o with
  | nil =>
    obtain ⟨data, children⟩ := o
    simp only [Outline.data] at folder
    rw [attach, data_mem_folders_node_iff folder] at member
    refine .inl ((data_mem_folders_node_iff folder).2 (member.imp_right ?_))
    rintro ⟨x, isChild, inChild⟩
    rcases List.mem_append.1 isChild with old | new
    · exact ⟨x, old, inChild⟩
    · rw [List.mem_singleton.1 new, folders_eq_nil noFolder] at inChild
      exact absurd inChild List.not_mem_nil
  | cons next trail ih =>
    obtain ⟨data, children⟩ := o
    simp only [Outline.data] at folder
    rw [attach, data_mem_folders_node_iff folder] at member
    rw [data_mem_folders_node_iff folder, List.map_cons, List.mem_cons]
    rcases member with here | ⟨x, isChild, inChild⟩
    · exact .inl (.inl here)
    rcases changeFirst_cases (isFolder next) (attach leaf trail)
      (attach leaf trail (node (emptyFolder next) [])) children with
      ⟨before, child, after, rfl, isNext, changed⟩ | ⟨-, added⟩
    · rw [changed, List.mem_append, List.mem_cons] at isChild
      rcases isChild with inBefore | rfl | inAfter
      · exact .inl (.inr ⟨x, by simp [inBefore], inChild⟩)
      · rcases ih (isFolder_eq_true_iff.1 isNext).1 inChild with old | onTrail
        · exact .inl (.inr ⟨child, by simp, old⟩)
        · exact .inr (.inr onTrail)
      · exact .inl (.inr ⟨x, by simp [inAfter], inChild⟩)
    · rw [added, List.mem_append, List.mem_singleton] at isChild
      rcases isChild with old | rfl
      · exact .inl (.inr ⟨x, old, inChild⟩)
      · rcases ih rfl inChild with new | onTrail
        · rcases (data_mem_folders_node_iff rfl).1 new with here | ⟨y, isChild, -⟩
          · exact .inr (.inl here)
          · exact absurd isChild List.not_mem_nil
        · exact .inr (.inr onTrail)

section

variable (root : Path) (programs : List Program)

theorem data_of_mem_folders_ofPrograms {d : NodeData} (member : d ∈ (ofPrograms root programs).folders.map data) :
    d = (emptyRoot root).data ∨ ∃ p ∈ programs, d ∈ (foldersOf root ⟨p.file⟩).map emptyFolder := by
  induction programs using List.reverseRecOn with
  | nil => exact .inl (List.mem_singleton.1 member)
  | append_singleton programs p ih =>
    rw [ofPrograms_concat] at member
    rcases data_of_mem_folders_attach (fun x => isFolder_of_mem_ofProgram) (kind_ofPrograms root programs) member with
      old | onTrail
    · rcases ih old with atRoot | ⟨q, listed, onTrail⟩
      · exact .inl atRoot
      · exact .inr ⟨q, List.mem_append_left _ listed, onTrail⟩
    · exact .inr ⟨p, by simp, onTrail⟩

theorem ofPrograms_holdsFiles : (ofPrograms root programs).HoldsFiles := by
  intro x member folder y isChild
  by_cases isFolder : y.data.kind = .folder
  · exact .inl isFolder
  · have held : y ∈ x.contents := by
      refine List.mem_filter.2 ⟨isChild, ?_⟩
      rw [Bool.not_eq_true', Bool.eq_false_iff]
      exact fun folder => isFolder (NodeKind.isFolder_iff.1 folder)
    rw [contents_ofPrograms root programs member folder] at held
    obtain ⟨p, -, rfl⟩ := List.mem_map.1 held
    exact .inr ⟨p, rfl⟩

theorem paths_perm : ((ofPrograms root programs).entries.map (·.data.path)).Perm
    ((ofPrograms root programs).folders.map (·.data.path) ++ programs.map (·.file)) := by
  have all := (ofPrograms root programs).entries_perm.map (·.data.path)
  have ofFiles := (files_ofPrograms root programs).map (·.data.path)
  rw [List.map_append] at all
  rw [List.map_map] at ofFiles
  exact all.trans (ofFiles.append_left _)

end

/-- The folders on the way to a path in normal form are in normal form. -/
theorem isNormal_of_mem_foldersDownTo {root folder d : Path} (normal : folder.IsNormal)
    (member : d ∈ foldersDownTo root folder) : d.IsNormal := by
  induction folder using Path.induction with
  | step folder ih =>
    by_cases above : root.IsAbove folder
    · cases up : folder.parent with
      | none =>
        rw [foldersDownTo_of_top above up, List.mem_singleton] at member
        exact member ▸ normal
      | some parent =>
        rw [foldersDownTo_of_parent above up] at member
        rcases List.mem_append.1 member with further | here
        · exact ih parent up (normal.parent up) further
        · exact List.mem_singleton.1 here ▸ normal
    · have none : foldersDownTo root folder = [] := by
        by_cases below : root.components <+: folder.components
        · exact foldersDownTo_of_same (by_contra fun differs => above ⟨below, fun same => differs same.symm⟩)
        · exact foldersDownTo_of_outside below
      rw [none] at member
      exact absurd member List.not_mem_nil

/-! ## Scans -/

/-- Programs as a scan of the root lists them: their files are below the root, no two at one path and none above
another. -/
structure IsScan (root : Path) (programs : List Program) : Prop where
  rootNormal : root.IsNormal
  filesNormal : ∀ p ∈ programs, (⟨p.file⟩ : Path).IsNormal
  below : ∀ p ∈ programs, root.IsAbove ⟨p.file⟩
  distinct : (programs.map (·.file)).Nodup
  apart : ∀ p ∈ programs, ∀ q ∈ programs, ¬(⟨p.file⟩ : Path).IsAbove ⟨q.file⟩

/-- A directory strictly between the root and a file. -/
structure IsBetween (root : Path) (programs : List Program) (d : Path) : Prop where
  normal : d.IsNormal
  between : ∃ p ∈ programs, root.IsAbove d ∧ d.IsAbove ⟨p.file⟩

section

variable {root : Path} {programs : List Program} (scan : IsScan root programs)

include scan

theorem IsScan.normal_of_mem_foldersOf {p : Program} (listed : p ∈ programs) {d : Path}
    (member : d ∈ foldersOf root ⟨p.file⟩) : d.IsNormal := by
  rw [foldersOf_eq] at member
  cases up : (⟨p.file⟩ : Path).parent with
  | none =>
    rw [up, Option.getD_none] at member
    exact isNormal_of_mem_foldersDownTo scan.rootNormal member
  | some parent =>
    rw [up, Option.getD_some] at member
    exact isNormal_of_mem_foldersDownTo ((scan.filesNormal p listed).parent up) member

/-- A folder is the root's or that of a directory on the way to a file. -/
theorem IsScan.data_of_mem_folders {x : Outline} (member : x ∈ (ofPrograms root programs).folders) :
    x.data = (emptyRoot root).data ∨ ∃ d, IsBetween root programs d ∧ x.data = emptyFolder d := by
  rcases data_of_mem_folders_ofPrograms root programs (List.mem_map_of_mem member) with atRoot | ⟨p, listed, onTrail⟩
  · exact .inl atRoot
  · obtain ⟨d, isFolder, data⟩ := List.mem_map.1 onTrail
    exact .inr ⟨d, ⟨scan.normal_of_mem_foldersOf listed isFolder, p, listed,
      mem_foldersOf_iff.1 (List.mem_map_of_mem isFolder)⟩, data.symm⟩

/-- No two folders or files carry one path. -/
theorem IsScan.nodup_entries : ((ofPrograms root programs).entries.map (·.data.path)).Nodup := by
  rw [(paths_perm root programs).nodup_iff, List.nodup_append]
  refine ⟨?_, scan.distinct, ?_⟩
  · -- folders of one path take the same steps
    rw [List.Nodup, List.pairwise_map]
    refine (folders_pairwise (ofPrograms_inPlace root programs)).imp fun differ same => differ ?_
    rw [steps, steps, same]
  · -- a file is below the root, and no directory on the way to another
    intro path ofFolder path' ofFile same
    obtain ⟨x, isFolder, rfl⟩ := List.mem_map.1 ofFolder
    obtain ⟨p, listed, rfl⟩ := List.mem_map.1 ofFile
    have atFile : (⟨x.data.path⟩ : Path) = ⟨p.file⟩ := congrArg Path.mk same
    rcases scan.data_of_mem_folders isFolder with atRoot | ⟨d, ⟨-, q, among, -, above⟩, data⟩
    · rw [atRoot] at atFile
      have below := scan.below p listed
      rw [← atFile] at below
      exact below.2 rfl
    · rw [data] at atFile
      refine scan.apart p listed q among ?_
      rw [← atFile]
      exact above

theorem IsScan.isFoundAt {x : Outline} (member : x ∈ (ofPrograms root programs).entries) :
    (ofPrograms root programs).IsFoundAt x.data.path x :=
  isFoundAt_of_nodup (kind_ofPrograms root programs) (ofPrograms_holdsFiles root programs) scan.nodup_entries member

theorem IsScan.isFoundAt_file {p : Program} (listed : p ∈ programs) :
    (ofPrograms root programs).IsFoundAt p.file (ofProgram p) := by
  refine scan.isFoundAt (x := ofProgram p) ?_
  rw [(entries_perm _).mem_iff, List.mem_append, (files_ofPrograms root programs).mem_iff]
  exact .inr (List.mem_map_of_mem listed)

theorem IsScan.isFoundAt_folder {d : Path} (isBetween : IsBetween root programs d) :
    ∃ x, (ofPrograms root programs).IsFoundAt d.text x ∧ x.data = emptyFolder d := by
  obtain ⟨normal, p, listed, belowRoot, above⟩ := isBetween
  have isFolder := (mem_folders_ofPrograms root programs).2 (.inr ⟨p, listed, belowRoot, above⟩)
  obtain ⟨x, isFolder, steps_⟩ := List.mem_map.1 isFolder
  have data : x.data = emptyFolder d := by
    rcases scan.data_of_mem_folders isFolder with atRoot | ⟨e, ⟨normal', -⟩, data⟩
    · rw [steps, atRoot] at steps_
      exact absurd steps_ belowRoot.2
    · rw [steps, data] at steps_
      rw [data, normal'.eq_of_components normal steps_]
  have found := scan.isFoundAt ((entries_perm _).mem_iff.2 (List.mem_append_left _ isFolder))
  rw [data] at found
  exact ⟨x, found, data⟩

theorem IsScan.isFoundAt_root : (ofPrograms root programs).IsFoundAt root.text (ofPrograms root programs) := by
  have isEntry_ : (ofPrograms root programs).isEntry = true := by
    rw [isEntry, kind_ofPrograms]
    rfl
  have found := scan.isFoundAt (List.mem_filter.2 ⟨mem_preorder_self _, isEntry_⟩)
  rw [data_ofPrograms] at found
  exact found

end

/-- **Finding a scanned path gives its own node**: the file by the path of a program, and not what stands below it with
the same path; the folder by the path of a directory on the way to a file; the whole outline by the path of the root;
and nothing by any other text. -/
theorem find?_ofPrograms {root : Path} {programs : List Program} (scan : IsScan root programs) :
    (∀ p ∈ programs, (ofPrograms root programs).IsFoundAt p.file (ofProgram p)) ∧
      (∀ d, IsBetween root programs d →
        ∃ x, (ofPrograms root programs).IsFoundAt d.text x ∧ x.data = emptyFolder d) ∧
      (ofPrograms root programs).IsFoundAt root.text (ofPrograms root programs) ∧
      ∀ path, (∀ p ∈ programs, p.file ≠ path) → (∀ d, IsBetween root programs d → d.text ≠ path) →
        root.text ≠ path → (ofPrograms root programs).find? path = none := by
  refine ⟨fun p => scan.isFoundAt_file, fun d => scan.isFoundAt_folder, scan.isFoundAt_root, ?_⟩
  intro path noFile noFolder notRoot
  rw [find?_eq_find?_entries (kind_ofPrograms root programs) (ofPrograms_holdsFiles root programs),
    List.find?_eq_none]
  intro x member carries
  have carries : x.data.path = path := beq_iff_eq.1 carries
  rcases List.mem_append.1 ((entries_perm _).mem_iff.1 member) with isFolder | isFile
  · rcases scan.data_of_mem_folders isFolder with atRoot | ⟨d, isBetween, data⟩
    · rw [atRoot] at carries
      exact notRoot carries
    · rw [data] at carries
      exact noFolder d isBetween carries
  · obtain ⟨p, listed, rfl⟩ := List.mem_map.1 ((files_ofPrograms root programs).mem_iff.1 isFile)
    exact noFile p listed carries

/-- A program of a section with one paragraph. -/
def postingAt (file : String) : Program :=
  .ofEvents ⟨file.toList⟩ [] [.division "PROCEDURE".toList 1, .procedureSection "MAIN".toList 2,
    .paragraph "POST".toList 3]

/-- Two programs in one directory, and one right below the root. -/
def postings : List Program := [postingAt "/src/pay/main.cbl", postingAt "/src/run.cbl", postingAt "/src/pay/tax.cbl"]

/-- Each of them is found by its path, and so are their directory and the root, but no other directory. -/
theorem find?_ofPrograms_postings :
    IsScan ⟨"/src".toList⟩ postings ∧
      (ofPrograms ⟨"/src".toList⟩ postings).IsFoundAt "/src/pay/tax.cbl".toList
        (ofProgram (postingAt "/src/pay/tax.cbl")) ∧
      (∃ x, (ofPrograms ⟨"/src".toList⟩ postings).IsFoundAt "/src/pay".toList x ∧
        x.data = emptyFolder ⟨"/src/pay".toList⟩) ∧
      (ofPrograms ⟨"/src".toList⟩ postings).find? "/src/other".toList = none := by
  have scan : IsScan ⟨"/src".toList⟩ postings := {
    rootNormal := ⟨["src".toList], by decide, rfl⟩
    filesNormal := by
      intro p listed
      simp only [postings, List.mem_cons, List.not_mem_nil, or_false] at listed
      rcases listed with rfl | rfl | rfl
      · exact ⟨["src".toList, "pay".toList, "main.cbl".toList], by decide, rfl⟩
      · exact ⟨["src".toList, "run.cbl".toList], by decide, rfl⟩
      · exact ⟨["src".toList, "pay".toList, "tax.cbl".toList], by decide, rfl⟩
    below := by decide +kernel
    distinct := by decide +kernel
    apart := by decide +kernel }
  obtain ⟨files, folders, -, others⟩ := find?_ofPrograms scan
  refine ⟨scan, files (postingAt "/src/pay/tax.cbl") (by simp [postings]), ?_, others _ (by decide +kernel) ?_ (by decide)⟩
  · exact folders ⟨"/src/pay".toList⟩ ⟨⟨["src".toList, "pay".toList], by decide, rfl⟩, postingAt "/src/pay/main.cbl",
      List.mem_cons_self, by decide, by decide⟩
  · rintro d ⟨-, p, listed, -, above⟩ same
    obtain rfl : d = ⟨"/src/other".toList⟩ := congrArg Path.mk same
    exact absurd above
      ((by decide +kernel : ∀ p ∈ postings, ¬(⟨"/src/other".toList⟩ : Path).IsAbove ⟨p.file⟩) p listed)

/-- A file above another, which is no scan: the directory of the other comes first. -/
example :
    ((ofPrograms ⟨"/src".toList⟩ [postingAt "/src/pay/main.cbl", postingAt "/src/pay"]).find? "/src/pay".toList).map
      (·.data.kind) = some .folder := by
  decide +kernel

end CobolAtlas.Outline
