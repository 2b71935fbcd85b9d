/-
# CobolAtlas.Proofs.Outline.Folders -- an outline mirrors the directories

In an outline whose folders are in place (`InPlace`), a folder stands below the folder one step above it, and no two
folders below one node take the same steps.  Then no two folders of the whole outline do (`folders_pairwise`): what
stands below a folder takes all its steps.

Attaching a leaf at the end of a trail keeps the folders in place (`attach_inPlace`), adds the folders of the trail
and no other (`mem_folders_attach`), and adds the leaf to what the folder at its end holds
(`contentsAt_attach`).  So the outline of programs mirrors the directories of their files: `ofPrograms_mirrors`.
Paths are compared by their components, among which `..` is a step as any other.
-/
import CobolAtlas.Proofs.Outline.Basic
import CobolAtlas.Proofs.Outline.Trail
import Mathlib.Data.List.Pairwise

namespace CobolAtlas.Outline

set_option autoImplicit false

/-! ## Folders and what they hold -/

/-- The steps of the path that a node carries. -/
def steps (o : Outline) : List Component := (Path.mk o.data.path).components

/-- The folders among the nodes of an outline. -/
def folders (o : Outline) : List Outline := o.preorder.filter (·.data.kind.isFolder)

/-- What stands right below a node and is no folder. -/
def contents (o : Outline) : List Outline := o.children.filter (!·.data.kind.isFolder)

/-- What the folders of these steps hold. -/
def contentsAt (d : List Component) (o : Outline) : List Outline :=
  (o.folders.filter fun x => decide (x.steps = d)).flatMap contents

section

variable {o : Outline} {d : List Component}

theorem folders_of_folder (folder : o.data.kind = .folder) : o.folders = o :: o.children.flatMap folders := by
  have isFolder : o.data.kind.isFolder = true := NodeKind.isFolder_iff.2 folder
  rw [folders, preorder_eq, List.filter_cons_of_pos (by exact isFolder), List.filter_flatMap]
  rfl

theorem folders_of_not_folder (other : o.data.kind ≠ .folder) : o.folders = o.children.flatMap folders := by
  have noFolder : ¬o.data.kind.isFolder = true := fun isFolder => other (NodeKind.isFolder_iff.1 isFolder)
  rw [folders, preorder_eq, List.filter_cons_of_neg (by exact noFolder), List.filter_flatMap]
  rfl

theorem folders_eq_nil (noFolder : ∀ x ∈ o.preorder, x.data.kind.isFolder = false) : o.folders = [] := by
  rw [folders, List.filter_eq_nil_iff]
  intro x member
  rw [noFolder x member]
  exact Bool.false_ne_true

theorem flatMap_contentsAt (d : List Component) (os : List Outline) :
    os.flatMap (contentsAt d) = ((os.flatMap folders).filter fun x => decide (x.steps = d)).flatMap contents := by
  rw [List.filter_flatMap, List.flatMap_assoc]
  rfl

theorem contentsAt_of_folder (folder : o.data.kind = .folder) :
    contentsAt d o = (if o.steps = d then o.contents else []) ++ o.children.flatMap (contentsAt d) := by
  rw [flatMap_contentsAt, contentsAt, folders_of_folder folder]
  by_cases here : o.steps = d
  · rw [if_pos here, List.filter_cons_of_pos (by simpa using here), List.flatMap_cons]
  · rw [if_neg here, List.filter_cons_of_neg (by simpa using here), List.nil_append]

theorem contentsAt_eq_nil (elsewhere : ∀ x ∈ o.folders, x.steps ≠ d) : contentsAt d o = [] := by
  have none : (o.folders.filter fun x => decide (x.steps = d)) = [] := by
    rw [List.filter_eq_nil_iff]
    intro x member
    simpa using elsewhere x member
  rw [contentsAt, none, List.flatMap_nil]

end

/-! ## Folders in place -/

/-- Folders right below a node stand below a folder one step above them, and take different steps. -/
structure NodeInPlace (o : Outline) : Prop where
  below : ∀ x ∈ o.children, x.data.kind = .folder → o.data.kind = .folder ∧ ∃ c, x.steps = o.steps ++ [c]
  distinct : o.children.Pairwise fun x y =>
    x.data.kind = .folder → y.data.kind = .folder → x.steps ≠ y.steps

/-- The folders of the outline are in place. -/
def InPlace (o : Outline) : Prop := ∀ x ∈ o.preorder, x.NodeInPlace

theorem inPlace_iff {o : Outline} : o.InPlace ↔ o.NodeInPlace ∧ ∀ x ∈ o.children, x.InPlace := by
  simp only [InPlace]
  rw [preorder_eq, List.forall_mem_cons, List.forall_mem_flatMap]

theorem inPlace_of_no_folder {o : Outline} (noFolder : ∀ x ∈ o.preorder, x.data.kind.isFolder = false) :
    o.InPlace := by
  induction o using induction with
  | step o ih =>
    have childNoFolder : ∀ x ∈ o.children, x.data.kind ≠ .folder := by
      intro x isChild folder
      have isFolder := noFolder x (mem_preorder_of_mem_children isChild (mem_preorder_self x))
      rw [folder] at isFolder
      cases isFolder
    refine inPlace_iff.2 ⟨⟨?_, ?_⟩, ?_⟩
    · intro x isChild folder
      exact absurd folder (childNoFolder x isChild)
    · exact List.pairwise_of_forall_mem_list fun x isChild _ _ folder => absurd folder (childNoFolder x isChild)
    · intro x isChild
      exact ih x isChild fun y member => noFolder y (mem_preorder_of_mem_children isChild member)

theorem inPlace_of_empty (data : NodeData) : (node data []).InPlace :=
  inPlace_iff.2 ⟨⟨fun _ isChild => absurd isChild List.not_mem_nil, List.Pairwise.nil⟩,
    fun _ isChild => absurd isChild List.not_mem_nil⟩

theorem contentsAt_of_empty (d : List Component) {data : NodeData} (folder : data.kind = .folder) :
    contentsAt d (node data []) = [] := by
  rw [contentsAt_of_folder (o := node data []) folder]
  show (if (node data []).steps = d then [] else []) ++ [] = []
  rw [ite_self, List.append_nil]

section

variable {o : Outline}

theorem folders_of_inPlace (inPlace : o.InPlace) (other : o.data.kind ≠ .folder) : o.folders = [] := by
  induction o using induction with
  | step o ih =>
    obtain ⟨here, below⟩ := inPlace_iff.1 inPlace
    rw [folders_of_not_folder other, List.flatMap_eq_nil_iff]
    intro x isChild
    exact ih x isChild (below x isChild) fun folder => other (here.below x isChild folder).1

/-- What stands below a folder takes all its steps. -/
theorem prefix_of_mem_folders (inPlace : o.InPlace) {x : Outline} (member : x ∈ o.folders) : o.steps <+: x.steps := by
  induction o using induction with
  | step o ih =>
    obtain ⟨here, below⟩ := inPlace_iff.1 inPlace
    by_cases folder : o.data.kind = .folder
    · rw [folders_of_folder folder] at member
      rcases List.mem_cons.1 member with rfl | deeper
      · exact List.prefix_rfl
      · obtain ⟨child, isChild, member⟩ := List.mem_flatMap.1 deeper
        by_cases isFolder : child.data.kind = .folder
        · obtain ⟨-, c, steps⟩ := here.below child isChild isFolder
          exact (steps ▸ List.prefix_append _ _ : o.steps <+: child.steps).trans
            (ih child isChild (below child isChild) member)
        · rw [folders_of_inPlace (below child isChild) isFolder] at member
          exact absurd member List.not_mem_nil
    · rw [folders_of_inPlace inPlace folder] at member
      exact absurd member List.not_mem_nil

/-- A folder below a child takes the steps of the child. -/
theorem NodeInPlace.child_steps (here : o.NodeInPlace) (below : ∀ x ∈ o.children, x.InPlace) {child x : Outline}
    (isChild : child ∈ o.children) (member : x ∈ child.folders) :
    child.data.kind = .folder ∧ (∃ c, child.steps = o.steps ++ [c]) ∧ child.steps <+: x.steps := by
  by_cases isFolder : child.data.kind = .folder
  · exact ⟨isFolder, (here.below child isChild isFolder).2, prefix_of_mem_folders (below child isChild) member⟩
  · rw [folders_of_inPlace (below child isChild) isFolder] at member
    exact absurd member List.not_mem_nil

/-- What the folders below a node hold, none of them takes the steps of the node itself. -/
theorem NodeInPlace.contentsAt_children (here : o.NodeInPlace) (below : ∀ x ∈ o.children, x.InPlace) :
    o.children.flatMap (contentsAt o.steps) = [] := by
  rw [List.flatMap_eq_nil_iff]
  intro child isChild
  refine contentsAt_eq_nil fun x member same => ?_
  obtain ⟨-, next, longer⟩ := here.child_steps below isChild member
  exact (further_of_concat next).2 (same ▸ longer)

/-- Folders that start with different steps of one length are different. -/
theorem ne_of_starts {d e x y : List Component} (differ : d ≠ e) (lengths : d.length = e.length) (left : d <+: x)
    (right : e <+: y) : x ≠ y := by
  rintro rfl
  exact differ ((List.prefix_of_prefix_length_le left right (Nat.le_of_eq lengths)).eq_of_length lengths)

/-- No two folders take the same steps. -/
theorem folders_pairwise (inPlace : o.InPlace) : o.folders.Pairwise fun x y => x.steps ≠ y.steps := by
  induction o using induction with
  | step o ih =>
    obtain ⟨here, below⟩ := inPlace_iff.1 inPlace
    by_cases folder : o.data.kind = .folder
    · rw [folders_of_folder folder, List.pairwise_cons]
      refine ⟨fun x member same => ?_, ?_⟩
      · obtain ⟨child, isChild, member⟩ := List.mem_flatMap.1 member
        obtain ⟨-, next, longer⟩ := here.child_steps below isChild member
        exact (further_of_concat next).2 (same ▸ longer)
      · rw [List.pairwise_flatMap]
        refine ⟨fun child isChild => ih child isChild (below child isChild), ?_⟩
        refine here.distinct.imp_of_mem fun {child sibling} isChild isSibling distinct => ?_
        intro x member y member'
        obtain ⟨isFolder, ⟨c, steps⟩, longer⟩ := here.child_steps below isChild member
        obtain ⟨isFolder', ⟨c', steps'⟩, longer'⟩ := here.child_steps below isSibling member'
        refine ne_of_starts (distinct isFolder isFolder') ?_ longer longer'
        rw [steps, steps', List.length_append, List.length_append]
        rfl
    · rw [folders_of_inPlace inPlace folder]
      exact List.Pairwise.nil

end

/-! ## Attaching -/

/-- Children of the same data are in place alike. -/
theorem NodeInPlace.congr {data : NodeData} {children children' : List Outline}
    (here : (node data children).NodeInPlace) (same : children'.map Outline.data = children.map Outline.data) :
    (node data children').NodeInPlace where
  below := by
    intro x isChild folder
    have member : x.data ∈ children.map Outline.data := same ▸ List.mem_map_of_mem isChild
    obtain ⟨y, isOld, data_⟩ := List.mem_map.1 member
    have steps_ : x.steps = y.steps := by rw [steps, steps, data_]
    rw [steps_]
    exact here.below y isOld (data_ ▸ folder)
  distinct := by
    let Apart (d e : NodeData) : Prop :=
      d.kind = .folder → e.kind = .folder → (Path.mk d.path).components ≠ (Path.mk e.path).components
    have old : (children.map Outline.data).Pairwise Apart := List.pairwise_map.2 here.distinct
    rw [← same] at old
    exact List.pairwise_map.1 old

/-- One child more, at the end. -/
theorem NodeInPlace.concat {data : NodeData} {children : List Outline} (here : (node data children).NodeInPlace)
    {x : Outline}
    (below : x.data.kind = .folder →
      data.kind = .folder ∧ ∃ c, x.steps = (node data children).steps ++ [c])
    (apart : ∀ y ∈ children, y.data.kind = .folder → x.data.kind = .folder → y.steps ≠ x.steps) :
    (node data (children ++ [x])).NodeInPlace where
  below := by
    intro y isChild
    rcases List.mem_append.1 isChild with old | new
    · exact here.below y old
    · rw [List.mem_singleton.1 new]
      exact below
  distinct := by
    refine List.pairwise_append.2 ⟨here.distinct, List.pairwise_singleton _ _, fun y old z new => ?_⟩
    rw [List.mem_singleton.1 new]
    exact apart y old

/-- A child more that is a folder brings what its folders hold. -/
theorem contentsAt_concat {data : NodeData} {children : List Outline} {x : Outline} {d : List Component}
    (folder : data.kind = .folder) (isFolder : x.data.kind = .folder) :
    contentsAt d (node data (children ++ [x])) = contentsAt d (node data children) ++ contentsAt d x := by
  have own : (node data (children ++ [x])).contents = (node data children).contents := by
    simp [contents, Outline.children, isFolder, NodeKind.isFolder]
  have sameSteps : (node data (children ++ [x])).steps = (node data children).steps := rfl
  rw [contentsAt_of_folder (o := node data (children ++ [x])) folder,
    contentsAt_of_folder (o := node data children) folder, own, sameSteps]
  simp only [Outline.children, List.flatMap_append, List.flatMap_singleton, List.append_assoc]

/-- Where more is held below a folder right below a node, it comes last: what stands below the folders after that one
has other steps. -/
theorem contentsAt_change {data : NodeData} {before after : List Outline} {child changed : Outline}
    {d : List Component} {more : List Outline} (inPlace : (node data (before ++ child :: after)).InPlace)
    (folder : data.kind = .folder) (isFolder : child.data.kind = .folder) (sameData : changed.data = child.data)
    (deeper : contentsAt d changed = contentsAt d child ++ more) (inside : more ≠ [] → child.steps <+: d) :
    contentsAt d (node data (before ++ changed :: after)) =
      contentsAt d (node data (before ++ child :: after)) ++ more := by
  obtain ⟨here, below⟩ := inPlace_iff.1 inPlace
  have own : (node data (before ++ changed :: after)).contents = (node data (before ++ child :: after)).contents := by
    simp [contents, Outline.children, sameData, isFolder, NodeKind.isFolder]
  have sameSteps : (node data (before ++ changed :: after)).steps = (node data (before ++ child :: after)).steps := rfl
  rw [contentsAt_of_folder (o := node data (before ++ changed :: after)) folder,
    contentsAt_of_folder (o := node data (before ++ child :: after)) folder, own, sameSteps]
  simp only [Outline.children, List.flatMap_append, List.flatMap_cons, deeper]
  by_cases nothing : more = []
  · rw [nothing, List.append_nil, List.append_nil]
  · have isChild : child ∈ before ++ child :: after := List.mem_append_right before List.mem_cons_self
    obtain ⟨c, childSteps⟩ := (here.below child isChild isFolder).2
    have noneAfter : after.flatMap (contentsAt d) = [] := by
      rw [List.flatMap_eq_nil_iff]
      intro sibling inAfter
      have isSibling : sibling ∈ before ++ child :: after :=
        List.mem_append_right before (List.mem_cons_of_mem child inAfter)
      have distinct := (List.pairwise_cons.1 (List.pairwise_append.1 here.distinct).2.1).1 sibling inAfter
      refine contentsAt_eq_nil fun x member => ?_
      obtain ⟨isFolder', ⟨c', siblingSteps⟩, longer⟩ := here.child_steps below isSibling member
      refine (ne_of_starts (distinct isFolder isFolder') ?_ (inside nothing) longer).symm
      rw [childSteps, siblingSteps, List.length_append, List.length_append]
      rfl
    rw [noneAfter]
    simp only [List.append_nil, List.append_assoc]

section Attach

variable {leaf : Outline} (noFolder : ∀ x ∈ leaf.preorder, x.data.kind.isFolder = false)

include noFolder

theorem leaf_kind : leaf.data.kind ≠ .folder := by
  intro folder
  have isFolder := noFolder leaf (mem_preorder_self leaf)
  rw [folder] at isFolder
  cases isFolder

/-- Folders stay in place. -/
theorem attach_inPlace {trail : List Path} {o : Outline} (inPlace : o.InPlace) (folder : o.data.kind = .folder)
    (isTrail : Trail o.steps trail) : (attach leaf trail o).InPlace := by
  induction trail generalizing o with
  | nil =>
    obtain ⟨data, children⟩ := o
    obtain ⟨here, below⟩ := inPlace_iff.1 inPlace
    have notFolder := leaf_kind noFolder
    refine inPlace_iff.2 ⟨here.concat (fun isFolder => absurd isFolder notFolder)
      fun _ _ _ isFolder => absurd isFolder notFolder, ?_⟩
    exact List.forall_mem_append.2 ⟨below, List.forall_mem_singleton.2 (inPlace_of_no_folder noFolder)⟩
  | cons next trail ih =>
    obtain ⟨data, children⟩ := o
    obtain ⟨here, below⟩ := inPlace_iff.1 inPlace
    obtain ⟨⟨c, steps_⟩, rest⟩ := isTrail
    rw [attach]
    rcases changeFirst_cases (isFolder next) (attach leaf trail)
      (attach leaf trail (node (emptyFolder next) [])) children with
      ⟨before, child, after, rfl, isNext, changed⟩ | ⟨none, added⟩
    · obtain ⟨isFolder, sameSteps⟩ := isFolder_eq_true_iff.1 isNext
      obtain ⟨inBefore, inChild, inAfter⟩ :
          (∀ x ∈ before, x.InPlace) ∧ child.InPlace ∧ ∀ x ∈ after, x.InPlace := by
        simpa only [Outline.children, List.forall_mem_append, List.forall_mem_cons] using below
      have deeper := ih inChild isFolder (by rw [steps, sameSteps]; exact rest)
      rw [changed]
      refine inPlace_iff.2 ⟨here.congr ?_, ?_⟩
      · rw [List.map_append, List.map_append, List.map_cons, List.map_cons, data_attach]
      · simp only [Outline.children, List.forall_mem_append, List.forall_mem_cons]
        exact ⟨inBefore, deeper, inAfter⟩
    · have new := ih (inPlace_of_empty (emptyFolder next)) rfl rest
      have newSteps : (attach leaf trail (node (emptyFolder next) [])).steps = next.components := by
        rw [steps, data_attach]
        rfl
      rw [added]
      refine inPlace_iff.2 ⟨here.concat (fun _ => ⟨folder, c, newSteps.trans steps_⟩) ?_, ?_⟩
      · intro y isChild isFolder _ same
        have isNext : Outline.isFolder next y = true := isFolder_eq_true_iff.2 ⟨isFolder, same.trans newSteps⟩
        rw [none y isChild] at isNext
        cases isNext
      · exact List.forall_mem_append.2 ⟨below, List.forall_mem_singleton.2 new⟩

/-- The folders of the trail are there, and no others but those of before. -/
theorem mem_folders_attach {trail : List Path} {o : Outline} (folder : o.data.kind = .folder)
    {d : List Component} :
    d ∈ (attach leaf trail o).folders.map steps ↔ d ∈ o.folders.map steps ∨ d ∈ trail.map Path.components := by
  have nodes {data : NodeData} {children : List Outline} (folder : data.kind = .folder) :
      d ∈ (node data children).folders.map steps ↔
        d = (Path.mk data.path).components ∨ ∃ x ∈ children, d ∈ x.folders.map steps := by
    rw [folders_of_folder (o := node data children) folder, List.map_cons, List.mem_cons, List.map_flatMap,
      List.mem_flatMap]
    rfl
  induction trail generalizing o with
  | nil =>
    obtain ⟨data, children⟩ := o
    simp only [Outline.data] at folder
    rw [attach, nodes folder, nodes folder]
    simp [folders_eq_nil noFolder, or_and_right, exists_or]
  | cons next trail ih =>
    obtain ⟨data, children⟩ := o
    simp only [Outline.data] at folder
    rw [attach, nodes folder, nodes folder, List.map_cons, List.mem_cons]
    rcases changeFirst_cases (isFolder next) (attach leaf trail)
      (attach leaf trail (node (emptyFolder next) [])) children with
      ⟨before, child, after, rfl, isNext, changed⟩ | ⟨-, added⟩
    · obtain ⟨isFolder, sameSteps⟩ := isFolder_eq_true_iff.1 isNext
      have inChild : d = next.components → d ∈ child.folders.map steps := by
        rintro rfl
        rw [folders_of_folder isFolder]
        exact List.mem_cons.2 (.inl sameSteps.symm)
      rw [changed]
      simp only [List.mem_append, List.mem_cons, or_and_right, exists_or, exists_eq_left, ih isFolder]
      grind
    · have new : d ∈ (attach leaf trail (node (emptyFolder next) [])).folders.map steps ↔
          d = next.components ∨ d ∈ trail.map Path.components := by
        have noChild : ¬∃ x ∈ ([] : List Outline), d ∈ x.folders.map steps := by simp
        have atEmpty : d ∈ (node (emptyFolder next) []).folders.map steps ↔ d = next.components :=
          (nodes rfl).trans (or_iff_left noChild)
        exact (ih (o := node (emptyFolder next) []) rfl).trans (or_congr_left atEmpty)
      rw [added]
      simp only [List.mem_append, List.mem_singleton, or_and_right, exists_or, exists_eq_left, new, or_assoc]

/-- A leaf right below a folder comes last in what the folders of its steps hold: none of these is further down. -/
theorem contentsAt_leaf {data : NodeData} {children : List Outline} (inPlace : (node data children).InPlace)
    (folder : data.kind = .folder) (d : List Component) :
    contentsAt d (node data (children ++ [leaf])) =
      contentsAt d (node data children) ++ if d = (node data children).steps then [leaf] else [] := by
  obtain ⟨here, below⟩ := inPlace_iff.1 inPlace
  have notFolder : leaf.data.kind.isFolder = false := noFolder leaf (mem_preorder_self leaf)
  have noLeaf : contentsAt d leaf = [] :=
    contentsAt_eq_nil fun x member => by rw [folders_eq_nil noFolder] at member; cases member
  have own : (node data (children ++ [leaf])).contents = (node data children).contents ++ [leaf] := by
    simp [contents, Outline.children, notFolder]
  have others : (children ++ [leaf]).flatMap (contentsAt d) = children.flatMap (contentsAt d) := by
    rw [List.flatMap_append, List.flatMap_singleton, noLeaf, List.append_nil]
  have sameSteps : (node data (children ++ [leaf])).steps = (node data children).steps := rfl
  rw [contentsAt_of_folder (o := node data (children ++ [leaf])) folder,
    contentsAt_of_folder (o := node data children) folder, own, sameSteps]
  simp only [Outline.children, others]
  by_cases atHome : (node data children).steps = d
  · have deeper : children.flatMap (contentsAt d) = [] := atHome ▸ here.contentsAt_children below
    rw [if_pos atHome, if_pos atHome, if_pos atHome.symm, deeper, List.append_nil, List.append_nil]
  · rw [if_neg atHome, if_neg atHome, if_neg (Ne.symm atHome), List.append_nil]

/-- What folders hold is as before, and at the end of the trail the leaf comes last. -/
theorem contentsAt_attach {trail : List Path} {o : Outline} (inPlace : o.InPlace) (folder : o.data.kind = .folder)
    (isTrail : Trail o.steps trail) (d : List Component) :
    contentsAt d (attach leaf trail o) = contentsAt d o ++ if d = trailEnd o.steps trail then [leaf] else [] := by
  induction trail generalizing o with
  | nil =>
    obtain ⟨data, children⟩ := o
    exact contentsAt_leaf noFolder inPlace folder d
  | cons next trail ih =>
    obtain ⟨data, children⟩ := o
    obtain ⟨-, rest⟩ := isTrail
    have root : data.kind = .folder := folder
    rw [attach]
    rcases changeFirst_cases (isFolder next) (attach leaf trail)
      (attach leaf trail (node (emptyFolder next) [])) children with
      ⟨before, child, after, rfl, isNext, changed⟩ | ⟨-, added⟩
    · obtain ⟨isFolder, sameSteps⟩ := isFolder_eq_true_iff.1 isNext
      have childSteps : child.steps = next.components := sameSteps
      have below := (inPlace_iff.1 inPlace).2 child (List.mem_append_right before List.mem_cons_self)
      have deeper := ih below isFolder (by rw [childSteps]; exact rest)
      rw [childSteps] at deeper
      rw [changed]
      refine contentsAt_change inPlace root isFolder (data_attach leaf trail child) deeper fun some => ?_
      by_cases atEnd : d = trailEnd next.components trail
      · rw [childSteps, atEnd]
        exact rest.prefix_end
      · exact absurd (if_neg atEnd) some
    · have new := ih (inPlace_of_empty (emptyFolder next)) rfl rest
      have isFolder : (attach leaf trail (node (emptyFolder next) [])).data.kind = .folder := by
        rw [data_attach]
        rfl
      rw [contentsAt_of_empty d rfl, List.nil_append] at new
      rw [added, contentsAt_concat root isFolder, new]
      rfl

end Attach

/-! ## The outline of programs -/

section

variable (root : Path) (programs : List Program)

theorem kind_ofPrograms : (ofPrograms root programs).data.kind = .folder := by
  rw [data_ofPrograms]
  rfl

theorem steps_ofPrograms : (ofPrograms root programs).steps = root.components := by
  rw [steps, data_ofPrograms]
  rfl

theorem ofPrograms_inPlace : (ofPrograms root programs).InPlace := by
  induction programs using List.reverseRecOn with
  | nil => exact inPlace_of_empty _
  | append_singleton programs p ih =>
    rw [ofPrograms_concat]
    refine attach_inPlace (fun x => isFolder_of_mem_ofProgram) ih (kind_ofPrograms root programs) ?_
    rw [steps_ofPrograms]
    exact (foldersOf_trail root ⟨p.file⟩).1

/-- The folders are the root and the folders above its files. -/
theorem mem_folders_ofPrograms {d : Path} :
    d.components ∈ (ofPrograms root programs).folders.map steps ↔
      d.components = root.components ∨ ∃ p ∈ programs, root.IsAbove d ∧ d.IsAbove ⟨p.file⟩ := by
  induction programs using List.reverseRecOn with
  | nil =>
    have alone : (ofPrograms root []).folders.map steps = [root.components] := rfl
    rw [alone, List.mem_singleton]
    simp
  | append_singleton programs p ih =>
    rw [ofPrograms_concat, mem_folders_attach (fun x => isFolder_of_mem_ofProgram) (kind_ofPrograms root programs), ih,
      mem_foldersOf_iff]
    simp only [List.mem_append, List.mem_singleton, or_and_right, exists_or, exists_eq_left, or_assoc]

/-- A folder holds the files whose home it is, in order. -/
theorem contentsAt_ofPrograms (d : Path) :
    contentsAt d.components (ofPrograms root programs) =
      (programs.filter fun p => (home root ⟨p.file⟩).same d).map ofProgram := by
  induction programs using List.reverseRecOn with
  | nil => exact contentsAt_of_empty d.components rfl
  | append_singleton programs p ih =>
    obtain ⟨trail, ends⟩ := foldersOf_trail root ⟨p.file⟩
    rw [ofPrograms_concat,
      contentsAt_attach (fun x => isFolder_of_mem_ofProgram) (ofPrograms_inPlace root programs)
        (kind_ofPrograms root programs) (by rw [steps_ofPrograms]; exact trail),
      ih, steps_ofPrograms, ends, List.filter_append, List.map_append]
    congr 1
    by_cases atHome : d.components = (home root ⟨p.file⟩).components
    · have same : (home root ⟨p.file⟩).same d = true := Path.same_iff.2 atHome.symm
      rw [if_pos atHome, List.filter_singleton, same]
      rfl
    · have other : (home root ⟨p.file⟩).same d = false :=
        Bool.eq_false_iff.2 fun same => atHome (Path.same_iff.1 same).symm
      rw [if_neg atHome, List.filter_singleton, other]
      rfl

end

/-- Where no two folders take the same steps, what a folder holds is what the folders of its steps hold. -/
theorem contentsAt_steps {o x : Outline} (inPlace : o.InPlace) (member : x ∈ o.folders) :
    contentsAt x.steps o = x.contents := by
  obtain ⟨before, after, parts⟩ := List.append_of_mem member
  have pairwise := folders_pairwise inPlace
  rw [parts, List.pairwise_append, List.pairwise_cons] at pairwise
  obtain ⟨-, ⟨apartAfter, -⟩, apartBefore⟩ := pairwise
  have noneBefore : before.filter (fun y => decide (y.steps = x.steps)) = [] := by
    rw [List.filter_eq_nil_iff]
    intro y inBefore
    simpa using apartBefore y inBefore x List.mem_cons_self
  have noneAfter : after.filter (fun y => decide (y.steps = x.steps)) = [] := by
    rw [List.filter_eq_nil_iff]
    intro y inAfter
    simpa using (apartAfter y inAfter).symm
  rw [contentsAt, parts, List.filter_append, List.filter_cons_of_pos (by simp), noneBefore, noneAfter,
    List.nil_append, List.flatMap_singleton]

/-- Is there a folder of that path? -/
def hasFolder (o : Outline) (d : Path) : Bool := o.preorder.any (isFolder d)

theorem countP_isFolder (o : Outline) (d : Path) :
    o.preorder.countP (isFolder d) = (o.folders.map steps).count d.components := by
  rw [List.count, List.countP_map, folders, List.countP_filter]
  refine List.countP_congr fun x _ => ?_
  rw [isFolder_eq_true_iff, Bool.and_eq_true, NodeKind.isFolder_iff, Function.comp_apply, beq_iff_eq]
  exact and_comm

theorem hasFolder_iff {o : Outline} {d : Path} : o.hasFolder d = true ↔ d.components ∈ o.folders.map steps := by
  rw [hasFolder, ← List.count_pos_iff, ← countP_isFolder, List.countP_pos_iff, List.any_eq_true]

/-- The outline mirrors the directories of the programs' files below the root. -/
structure Mirrors (root : Path) (programs : List Program) (o : Outline) : Prop where
  /-- It is the node of the root. -/
  top : o.data = NodeData.plain (root.fileName.getD "root".toList) .folder root.text
  /-- One folder stands for the root and for each directory between it and a file, and no other folder is there. -/
  folders : ∀ d : Path, o.preorder.countP (isFolder d) =
    if d.same root ∨ ∃ p ∈ programs, root.IsAbove d ∧ d.IsAbove ⟨p.file⟩ then 1 else 0
  /-- A folder stands right below the folder of its parent directory. -/
  parents : ∀ x ∈ o.preorder, ∀ y ∈ x.children, y.data.kind = .folder →
    x.data.kind = .folder ∧ (∃ c, y.steps = x.steps ++ [c]) ∧
      ∀ q, (Path.mk y.data.path).parent = some q → isFolder q x = true
  /-- A folder holds the files whose home it is, in order, and nothing else but folders. -/
  contents : ∀ x ∈ o.preorder, x.data.kind = .folder →
    x.contents = (programs.filter fun p => (home root ⟨p.file⟩).same ⟨x.data.path⟩).map ofProgram
  /-- So a file stands right below the folder of its directory, or right below the root if it is outside. -/
  files : ∀ p ∈ programs, ∃ x ∈ o.preorder, isFolder (home root ⟨p.file⟩) x = true ∧ ofProgram p ∈ x.children

section

variable (root : Path) (programs : List Program)

theorem hasFolder_ofPrograms {d : Path} : (ofPrograms root programs).hasFolder d = true ↔
    d.components = root.components ∨ ∃ p ∈ programs, root.IsAbove d ∧ d.IsAbove ⟨p.file⟩ :=
  hasFolder_iff.trans (mem_folders_ofPrograms root programs)

theorem contents_ofPrograms {x : Outline} (member : x ∈ (ofPrograms root programs).preorder)
    (folder : x.data.kind = .folder) :
    x.contents = (programs.filter fun p => (home root ⟨p.file⟩).same ⟨x.data.path⟩).map ofProgram := by
  have isFolder : x ∈ (ofPrograms root programs).folders :=
    List.mem_filter.2 ⟨member, NodeKind.isFolder_iff.2 folder⟩
  rw [← contentsAt_steps (ofPrograms_inPlace root programs) isFolder]
  exact contentsAt_ofPrograms root programs ⟨x.data.path⟩

/-- The home of a file is the root or a folder above the file. -/
theorem hasFolder_home {p : Program} (member : p ∈ programs) :
    (ofPrograms root programs).hasFolder (home root ⟨p.file⟩) = true := by
  rw [hasFolder_ofPrograms]
  by_cases atRoot : (home root ⟨p.file⟩).components = root.components
  · exact .inl atRoot
  · obtain ⟨trail, ends⟩ := foldersOf_trail root ⟨p.file⟩
    have onTrail : (home root ⟨p.file⟩).components ∈ (foldersOf root ⟨p.file⟩).map Path.components :=
      trail.mem_iff.2 ⟨⟨ends ▸ trail.prefix_end, fun same => atRoot same.symm⟩, ends ▸ List.prefix_rfl⟩
    exact .inr ⟨p, member, mem_foldersOf_iff.1 onTrail⟩

theorem ofPrograms_mirrors_directories : Mirrors root programs (ofPrograms root programs) where
  top := data_ofPrograms root programs
  folders := by
    intro d
    have nodup : ((ofPrograms root programs).folders.map steps).Nodup :=
      List.pairwise_map.2 (folders_pairwise (ofPrograms_inPlace root programs))
    rw [countP_isFolder, nodup.count]
    exact if_congr ((mem_folders_ofPrograms root programs).trans (or_congr_left Path.same_iff.symm)) rfl rfl
  parents := by
    intro x member y isChild folder
    obtain ⟨isFolder, c, steps_⟩ := (ofPrograms_inPlace root programs x member).below y isChild folder
    refine ⟨isFolder, ⟨c, steps_⟩, fun q up => isFolder_eq_true_iff.2 ⟨isFolder, ?_⟩⟩
    obtain ⟨c', components⟩ := Path.components_of_parent up
    exact (List.append_inj' (steps_.symm.trans components) rfl).1
  contents := fun x member folder => contents_ofPrograms root programs member folder
  files := by
    intro p member
    obtain ⟨x, isNode, isHome⟩ := List.any_eq_true.1 (hasFolder_home root programs member)
    obtain ⟨folder, components⟩ := isFolder_eq_true_iff.1 isHome
    have held : ofProgram p ∈ x.contents := by
      rw [contents_ofPrograms root programs isNode folder]
      exact List.mem_map_of_mem (List.mem_filter.2 ⟨member, Path.same_iff.2 components.symm⟩)
    exact ⟨x, isNode, isHome, (List.mem_filter.1 held).1⟩

/-- **The outline of programs mirrors the directories of their files, and making its folders ends**: a climb from any
folder to what an outline has already makes the folders on the way that are missing, each once. -/
theorem ofPrograms_mirrors :
    Mirrors root programs (ofPrograms root programs) ∧
      ∀ (folder : Path) (made : List Path),
        Climbs root (ofPrograms root programs).hasFolder folder made ↔
          made = (foldersDownTo root folder).filter fun d => !(ofPrograms root programs).hasFolder d := by
  refine ⟨ofPrograms_mirrors_directories root programs, fun folder made => climbs_iff ?_ ?_ made⟩
  · intro d same
    exact (hasFolder_ofPrograms root programs).2 (.inl same)
  · intro d e belowRoot above has
    rw [hasFolder_ofPrograms] at has ⊢
    by_cases atRoot : d.components = root.components
    · exact .inl atRoot
    · refine .inr ?_
      rcases has with same | ⟨p, member, -, aboveFile⟩
      · rw [same] at above
        exact absurd (antisymm above belowRoot) atRoot
      · refine ⟨p, member, ⟨belowRoot, fun same => atRoot same.symm⟩, above.trans aboveFile.1, fun same => ?_⟩
        rw [same] at above
        exact aboveFile.2 (antisymm aboveFile.1 above)

end

end CobolAtlas.Outline
