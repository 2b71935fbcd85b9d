/-
# CobolAtlas.Proofs.Outline.Basic -- the nodes of an outline

All nodes of an outline are its own and those of the outlines right below it (`preorder_eq`).  Below the node of a
program no other file and no folder stands (`kind_below_ofProgram`).

A leaf that is attached below a chain of folders goes into one child of each node on the way: the first that is the
next folder, or a new one at the end (`changeFirst_cases`).  The files of the outline are those of before and those
of the leaf (`files_attach`), so that the outline of programs has one file for each program (`files_ofPrograms`).
-/
import CobolAtlas.Outline.Repository
import Mathlib.Data.List.Induction

namespace CobolAtlas

set_option autoImplicit false

/-- Is it a folder? -/
def NodeKind.isFolder : NodeKind → Bool
  | .folder => true
  | _ => false

theorem NodeKind.isFolder_iff {kind : NodeKind} : kind.isFolder = true ↔ kind = .folder := by
  cases kind <;> simp [isFolder]

namespace Outline

/-! ## Nodes -/

theorem allPreorder_eq (os : List Outline) : allPreorder os = os.flatMap preorder := by
  induction os with
  | nil => rfl
  | cons o os ih => rw [allPreorder, ih, List.flatMap_cons]

theorem preorder_eq (o : Outline) : o.preorder = o :: o.children.flatMap preorder := by
  obtain ⟨data, children⟩ := o
  rw [preorder, allPreorder_eq]
  rfl

theorem mem_preorder_self (o : Outline) : o ∈ o.preorder := by
  rw [preorder_eq]
  exact List.mem_cons_self

theorem mem_preorder_of_mem_children {o child x : Outline} (isChild : child ∈ o.children)
    (member : x ∈ child.preorder) : x ∈ o.preorder := by
  rw [preorder_eq]
  exact List.mem_cons_of_mem o (List.mem_flatMap.2 ⟨child, isChild, member⟩)

mutual

/-- What an outline has because all outlines right below it have it, every outline has. -/
@[elab_as_elim]
theorem induction {P : Outline → Prop} (step : ∀ o, (∀ child ∈ o.children, P child) → P o) : ∀ o, P o
  | node _ children => step _ (allInduction step children)

theorem allInduction {P : Outline → Prop} (step : ∀ o, (∀ child ∈ o.children, P child) → P o) :
    ∀ os : List Outline, ∀ o ∈ os, P o
  | [] => fun _ member => absurd member List.not_mem_nil
  | o :: os => List.forall_mem_cons.2 ⟨induction step o, allInduction step os⟩

end

/-- Nodes without children are all their nodes. -/
theorem flatMap_preorder_of_leaves {os : List Outline} (leaves : ∀ o ∈ os, o.children = []) :
    os.flatMap preorder = os := by
  induction os with
  | nil => rfl
  | cons o os ih =>
    obtain ⟨first, others⟩ := List.forall_mem_cons.1 leaves
    rw [List.flatMap_cons, preorder_eq, first, List.flatMap_nil, ih others, List.singleton_append]

/-! ## The node of a program -/

theorem children_of_mem_ofSections {p : Program} {sections : List ProcedureSection} {o : Outline}
    (member : o ∈ ofSections p sections) :
    o.data.kind = .sectionNode ∧ ∀ x ∈ o.children, ∃ q, x = ofParagraph p.file q := by
  induction sections with
  | nil => exact absurd member List.not_mem_nil
  | cons s later ih =>
    rcases List.mem_cons.1 member with rfl | below
    · refine ⟨rfl, fun x isChild => ?_⟩
      simp only [children] at isChild
      split at isChild
      · exact absurd isChild List.not_mem_nil
      · obtain ⟨q, -, rfl⟩ := List.mem_map.1 isChild
        exact ⟨q, rfl⟩
    · exact ih below

/-- Right below a division stand sections and paragraphs, and below these nothing but paragraphs. -/
theorem children_of_mem_ofDivision {p : Program} {name : Text} {o : Outline}
    (member : o ∈ (ofDivision p name).children) :
    (o.data.kind = .sectionNode ∨ o.data.kind = .paragraph) ∧ ∀ x ∈ o.children, ∃ q, x = ofParagraph p.file q := by
  have noChild : ∀ x ∈ ([] : List Outline), ∃ q, x = ofParagraph p.file q :=
    fun x isChild => absurd isChild List.not_mem_nil
  simp only [ofDivision, children] at member
  split at member
  · obtain ⟨s, -, rfl⟩ := List.mem_map.1 member
    exact ⟨.inl rfl, noChild⟩
  · split at member
    · rcases List.mem_append.1 member with inSections | loose
      · obtain ⟨kind, paragraphs⟩ := children_of_mem_ofSections inSections
        exact ⟨.inl kind, paragraphs⟩
      · obtain ⟨q, -, rfl⟩ := List.mem_map.1 loose
        exact ⟨.inr rfl, noChild⟩
    · exact absurd member List.not_mem_nil

/-- Below a program's node stands neither a folder nor a file. -/
theorem kind_below_ofProgram {p : Program} {x : Outline} (below : x ∈ (ofProgram p).children.flatMap preorder) :
    x.data.kind.isFolder = false ∧ x.data.kind.isFile = false := by
  obtain ⟨division, isDivision, member⟩ := List.mem_flatMap.1 below
  obtain ⟨name, -, rfl⟩ := List.mem_map.1 isDivision
  rw [preorder_eq] at member
  rcases List.mem_cons.1 member with rfl | below
  · exact ⟨rfl, rfl⟩
  · obtain ⟨part, isPart, member⟩ := List.mem_flatMap.1 below
    obtain ⟨kind, paragraphs⟩ := children_of_mem_ofDivision isPart
    rw [preorder_eq] at member
    rcases List.mem_cons.1 member with rfl | below
    · rcases kind with kind | kind <;> rw [kind] <;> exact ⟨rfl, rfl⟩
    · obtain ⟨q, isChild, isNode⟩ := List.mem_flatMap.1 below
      obtain ⟨paragraph, rfl⟩ := paragraphs q isChild
      obtain rfl := List.mem_singleton.1 isNode
      exact ⟨rfl, rfl⟩

/-- No folder stands among the nodes of a program. -/
theorem isFolder_of_mem_ofProgram {p : Program} {x : Outline} (member : x ∈ (ofProgram p).preorder) :
    x.data.kind.isFolder = false := by
  rw [preorder_eq] at member
  rcases List.mem_cons.1 member with rfl | below
  · rfl
  · exact (kind_below_ofProgram below).1

/-! ## Attaching -/

theorem isFolder_eq_true_iff {folder : Path} {o : Outline} :
    isFolder folder o = true ↔ o.data.kind = .folder ∧ (Path.mk o.data.path).components = folder.components := by
  rw [isFolder, Bool.and_eq_true, beq_iff_eq, Path.same, beq_iff_eq]

section ChangeFirst

variable {is : Outline → Bool} {change : Outline → Outline} {missing o : Outline} {os before after : List Outline}

theorem changeFirst_append_cons (others : ∀ x ∈ before, is x = false) (isFirst : is o = true) :
    changeFirst is change missing (before ++ o :: after) = before ++ change o :: after := by
  induction before with
  | nil => rw [List.nil_append, changeFirst, if_pos isFirst, List.nil_append]
  | cons x before ih =>
    obtain ⟨here, others⟩ := List.forall_mem_cons.1 others
    rw [List.cons_append, changeFirst, here, if_neg Bool.false_ne_true, ih others, List.cons_append]

theorem changeFirst_of_none (others : ∀ x ∈ os, is x = false) :
    changeFirst is change missing os = os ++ [missing] := by
  induction os with
  | nil => rfl
  | cons x os ih =>
    obtain ⟨here, others⟩ := List.forall_mem_cons.1 others
    rw [changeFirst, here, if_neg Bool.false_ne_true, ih others, List.cons_append]

end ChangeFirst

/-- The first outline that satisfies `is` is changed, or there is none and a new one comes last. -/
theorem changeFirst_cases (is : Outline → Bool) (change : Outline → Outline) (missing : Outline)
    (os : List Outline) :
    (∃ before o after, os = before ++ o :: after ∧ is o = true ∧
        changeFirst is change missing os = before ++ change o :: after) ∨
      (∀ o ∈ os, is o = false) ∧ changeFirst is change missing os = os ++ [missing] := by
  cases found : os.find? is with
  | none =>
    have others : ∀ o ∈ os, is o = false := fun o member => Bool.eq_false_iff.2 (List.find?_eq_none.1 found o member)
    exact .inr ⟨others, changeFirst_of_none others⟩
  | some o =>
    obtain ⟨isFirst, before, after, rfl, others⟩ := List.find?_eq_some_iff_append.1 found
    refine .inl ⟨before, o, after, rfl, isFirst, changeFirst_append_cons (fun x member => ?_) isFirst⟩
    simpa using others x member

@[simp] theorem data_attach (leaf : Outline) (folders : List Path) (o : Outline) :
    (attach leaf folders o).data = o.data := by
  obtain ⟨data, children⟩ := o
  cases folders <;> rfl

/-! ## Files -/

/-- The files among the nodes of an outline. -/
def files (o : Outline) : List Outline := o.preorder.filter (·.data.kind.isFile)

theorem files_node {data : NodeData} {children : List Outline} (folder : data.kind = .folder) :
    (node data children).files = children.flatMap files := by
  have noFile : ¬(node data children).data.kind.isFile = true := by simp [Outline.data, folder, NodeKind.isFile]
  rw [files, preorder_eq, List.filter_cons_of_neg (by exact noFile), List.filter_flatMap]
  rfl

theorem files_ofProgram (p : Program) : (ofProgram p).files = [ofProgram p] := by
  have noneBelow : ((ofProgram p).children.flatMap preorder).filter (·.data.kind.isFile) = [] := by
    rw [List.filter_eq_nil_iff]
    intro x below
    simp [kind_below_ofProgram below]
  rw [files, preorder_eq, List.filter_cons_of_pos rfl, noneBelow]

/-- A leaf that is attached adds its files. -/
theorem files_attach (leaf : Outline) (folders : List Path) {o : Outline} (folder : o.data.kind = .folder) :
    (attach leaf folders o).files.Perm (o.files ++ leaf.files) := by
  induction folders generalizing o with
  | nil =>
    obtain ⟨data, children⟩ := o
    simp only [Outline.data] at folder
    rw [attach, files_node folder, files_node folder, List.flatMap_append, List.flatMap_singleton]
  | cons next folders ih =>
    obtain ⟨data, children⟩ := o
    simp only [Outline.data] at folder
    rw [attach, files_node folder, files_node folder]
    rcases changeFirst_cases (isFolder next) (attach leaf folders)
      (attach leaf folders (node (emptyFolder next) [])) children with
      ⟨before, child, after, rfl, isNext, changed⟩ | ⟨-, added⟩
    · have inChild := ih (isFolder_eq_true_iff.1 isNext).1
      rw [changed, List.flatMap_append, List.flatMap_append, List.flatMap_cons, List.flatMap_cons, List.append_assoc]
      refine List.Perm.append_left _ ((inChild.append_right _).trans ?_)
      rw [List.append_assoc, List.append_assoc]
      exact List.perm_append_comm.append_left _
    · have inNew := ih (o := node (emptyFolder next) []) rfl
      rw [added, List.flatMap_append, List.flatMap_singleton]
      exact inNew.append_left _

/-- The outline of programs, one more. -/
theorem ofPrograms_concat (root : Path) (programs : List Program) (p : Program) :
    ofPrograms root (programs ++ [p]) =
      attach (ofProgram p) (foldersOf root ⟨p.file⟩) (ofPrograms root programs) := by
  rw [ofPrograms, List.foldl_append, List.foldl_cons, List.foldl_nil]
  rfl

theorem data_ofPrograms (root : Path) (programs : List Program) :
    (ofPrograms root programs).data = (emptyRoot root).data := by
  induction programs using List.reverseRecOn with
  | nil => rfl
  | append_singleton programs p ih => rw [ofPrograms_concat, data_attach, ih]

/-- The files of an outline are those of its programs, one each. -/
theorem files_ofPrograms (root : Path) (programs : List Program) :
    (ofPrograms root programs).files.Perm (programs.map ofProgram) := by
  induction programs using List.reverseRecOn with
  | nil => exact List.Perm.refl []
  | append_singleton programs p ih =>
    have folder : (ofPrograms root programs).data.kind = .folder := by rw [data_ofPrograms]; rfl
    rw [ofPrograms_concat, List.map_append, List.map_singleton]
    refine (files_attach _ _ folder).trans ?_
    rw [files_ofProgram]
    exact ih.append_right _

end Outline

end CobolAtlas
