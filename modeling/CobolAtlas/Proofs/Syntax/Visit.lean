/-
# CobolAtlas.Proofs.Syntax.Visit -- the nodes that a visit reaches

`Node.sites` lists all nodes of a tree in document order, each with the kinds of the nodes above it.  A visit
reaches those that stand below no program name and no header (`reached_eq_sites`): it passes these three and
does not enter them.  What the visit reports are the reports of the nodes it reaches, one after another
(`events_eq_flatMap`), and the errors it counts are the error nodes among them.

`errorCount_eq_iff` says what follows for the count: it is the number of all error nodes of the tree exactly if
none of them stands below a program name or a header.
-/
import CobolAtlas.Syntax.Tree
import Mathlib.Data.List.Basic

namespace CobolAtlas.Node

set_option autoImplicit false

/-! ## Trees -/

mutual

/-- What a node has because all nodes right below it have it, every node has. -/
@[elab_as_elim]
theorem induction {P : Node → Prop} (step : ∀ node, (∀ child ∈ node.children, P child) → P node) :
    ∀ node, P node
  | mk _ _ _ _ _ children => step _ (allInduction step children)

theorem allInduction {P : Node → Prop} (step : ∀ node, (∀ child ∈ node.children, P child) → P node) :
    ∀ nodes : List Node, ∀ node ∈ nodes, P node
  | [] => fun _ member => absurd member List.not_mem_nil
  | node :: nodes => List.forall_mem_cons.2 ⟨induction step node, allInduction step nodes⟩

end

/-- A node of a tree, with the kinds of the nodes above it, the nearest first. -/
structure Site where
  above : List Text
  node : Node

mutual

/-- A node below `above` and all nodes below it, in document order. -/
def sitesBelow (above : List Text) : Node → List Site
  | mk kind text startLine endLine isError children =>
      ⟨above, mk kind text startLine endLine isError children⟩ :: allSitesBelow (kind :: above) children

/-- Nodes below `above` and all nodes below them, in document order. -/
def allSitesBelow (above : List Text) : List Node → List Site
  | [] => []
  | node :: nodes => sitesBelow above node ++ allSitesBelow above nodes

end

/-- All nodes of a tree in document order. -/
def sites (tree : Node) : List Site := sitesBelow [] tree

/-- Does the node stand below no program name and no header? -/
def Site.isReached (profile : Profile) (s : Site) : Bool := s.above.all fun kind => !isClosed profile kind

theorem allSitesBelow_eq (above : List Text) (nodes : List Node) :
    allSitesBelow above nodes = nodes.flatMap (sitesBelow above) := by
  induction nodes with
  | nil => rfl
  | cons node nodes ih => rw [allSitesBelow, ih, List.flatMap_cons]

theorem sitesBelow_eq (above : List Text) (node : Node) :
    sitesBelow above node = ⟨above, node⟩ :: node.children.flatMap (sitesBelow (node.kind :: above)) := by
  obtain ⟨kind, text, startLine, endLine, isError, children⟩ := node
  rw [sitesBelow, allSitesBelow_eq]
  rfl

/-! ## Nodes that are not cut off -/

/-- Does the node stand below no node of a kind that `cuts` off what is below it? -/
def Site.isOpen (cuts : Text → Bool) (s : Site) : Bool := s.above.all fun kind => !cuts kind

section Cuts

variable (cuts : Text → Bool) (node : Node) {above : List Text}

/-- Below a node that cuts off nothing is left. -/
theorem filter_isOpen_eq_nil (closed : above.all (!cuts ·) = false) :
    (sitesBelow above node).filter (Site.isOpen cuts) = [] := by
  induction node using induction generalizing above with
  | step node ih =>
    have below : (node.kind :: above).all (!cuts ·) = false := by rw [List.all_cons, closed, Bool.and_false]
    rw [sitesBelow_eq, List.filter_cons_of_neg (by simp [Site.isOpen, closed]), List.filter_flatMap,
      List.flatMap_eq_nil_iff]
    intro child member
    exact ih child member below

/-- A node that is not cut off is left, and what is left below it if it does not cut off itself. -/
theorem filter_isOpen_eq (isOpen : above.all (!cuts ·) = true) :
    (sitesBelow above node).filter (Site.isOpen cuts) =
      ⟨above, node⟩ :: if cuts node.kind then []
        else node.children.flatMap fun child => (sitesBelow (node.kind :: above) child).filter (Site.isOpen cuts) := by
  rw [sitesBelow_eq, List.filter_cons_of_pos (by exact isOpen), List.filter_flatMap]
  congr 1
  split
  · rename_i closed
    rw [List.flatMap_eq_nil_iff]
    intro child _
    exact filter_isOpen_eq_nil cuts child (by rw [List.all_cons, closed, Bool.not_true, Bool.false_and])
  · rfl

end Cuts

/-! ## Reached nodes -/

mutual

/-- The nodes that the visit of a node reaches, in document order. -/
def reached (profile : Profile) : Node → List Node
  | mk kind text startLine endLine isError children =>
      mk kind text startLine endLine isError children ::
        if isClosed profile kind then [] else allReached profile children

/-- The nodes that the visits of nodes reach. -/
def allReached (profile : Profile) : List Node → List Node
  | [] => []
  | node :: nodes => reached profile node ++ allReached profile nodes

end

variable {profile : Profile}

theorem allReached_eq (nodes : List Node) : allReached profile nodes = nodes.flatMap (reached profile) := by
  induction nodes with
  | nil => rfl
  | cons node nodes ih => rw [allReached, ih, List.flatMap_cons]

theorem reached_eq (node : Node) :
    node.reached profile =
      node :: if isClosed profile node.kind then [] else node.children.flatMap (reached profile) := by
  obtain ⟨kind, text, startLine, endLine, isError, children⟩ := node
  rw [reached, allReached_eq]
  rfl

/-- The nodes reached are those that stand below no program name and no header. -/
theorem map_filter_isReached (node : Node) {above : List Text} (isOpen : above.all (!isClosed profile ·) = true) :
    ((sitesBelow above node).filter (Site.isReached profile)).map Site.node = node.reached profile := by
  induction node using induction generalizing above with
  | step node ih =>
    have left : (sitesBelow above node).filter (Site.isReached profile) = _ := filter_isOpen_eq _ node isOpen
    rw [left, reached_eq, List.map_cons]
    congr 1
    cases closed : isClosed profile node.kind with
    | true => rfl
    | false =>
      have below : (node.kind :: above).all (!isClosed profile ·) = true := by simp [closed, isOpen]
      rw [if_neg Bool.false_ne_true, if_neg Bool.false_ne_true, List.map_flatMap]
      exact List.flatMap_congr fun child member => ih child member below

theorem reached_eq_sites (tree : Node) :
    tree.reached profile = (tree.sites.filter (Site.isReached profile)).map Site.node :=
  (map_filter_isReached tree rfl).symm

/-! ## What the visit reports and counts -/

/-- What a node that is reached reports: what it makes of itself, and the line it ends on if it is a leaf. -/
def reports (profile : Profile) (node : Node) : List Event :=
  ownEvents profile node ++
    if isClosed profile node.kind then [] else if node.children.isEmpty then [.observe node.endLine] else []

theorem allEvents_eq (nodes : List Node) : allEvents profile nodes = nodes.flatMap (events profile) := by
  induction nodes with
  | nil => rfl
  | cons node nodes ih => rw [allEvents, ih, List.flatMap_cons]

theorem events_eq (node : Node) :
    node.events profile = reports profile node ++
      if isClosed profile node.kind then [] else node.children.flatMap (events profile) := by
  obtain ⟨kind, text, startLine, endLine, isError, children⟩ := node
  rw [events, allEvents_eq, reports, List.append_assoc]
  congr 1
  show _ = (if isClosed profile kind then [] else if children.isEmpty then _ else []) ++
    if isClosed profile kind then [] else children.flatMap (events profile)
  split
  · rfl
  · cases children with
    | nil => rfl
    | cons child children => rfl

/-- The visit reports what the nodes report that it reaches. -/
theorem events_eq_flatMap (tree : Node) : tree.events profile = (tree.reached profile).flatMap (reports profile) := by
  induction tree using induction with
  | step node ih =>
    rw [events_eq, reached_eq, List.flatMap_cons]
    congr 1
    split
    · rfl
    · rw [List.flatMap_assoc]
      exact List.flatMap_congr ih

theorem allErrorCount_eq_countP (nodes : List Node)
    (each : ∀ node ∈ nodes, node.errorCount profile = (node.reached profile).countP Node.isError) :
    allErrorCount profile nodes = (nodes.flatMap (reached profile)).countP Node.isError := by
  induction nodes with
  | nil => rfl
  | cons node nodes ih =>
    obtain ⟨first, others⟩ := List.forall_mem_cons.1 each
    rw [allErrorCount, first, ih others, List.flatMap_cons, List.countP_append]

/-- The errors counted are the error nodes that are reached. -/
theorem errorCount_eq_countP (tree : Node) :
    tree.errorCount profile = (tree.reached profile).countP Node.isError := by
  induction tree using induction with
  | step node ih =>
    have own : node.errorCount profile = (if node.isError then 1 else 0) +
        if isClosed profile node.kind then 0 else allErrorCount profile node.children := by
      obtain ⟨kind, text, startLine, endLine, isError, children⟩ := node
      rw [errorCount]
      rfl
    rw [own, reached_eq, List.countP_cons, Nat.add_comm]
    congr 1
    split
    · rfl
    · exact allErrorCount_eq_countP node.children ih

/-- **The count of errors.**  A visit counts the error nodes that stand below no program name and no header.
These are all error nodes of the tree exactly if no error node stands below one of the three. -/
theorem errorCount_eq_iff (profile : Profile) (tree : Node) :
    tree.errorCount profile = tree.sites.countP (fun s => s.node.isError && s.isReached profile) ∧
      (tree.errorCount profile = tree.sites.countP (·.node.isError) ↔
        ∀ s ∈ tree.sites, s.node.isError = true → s.isReached profile = true) := by
  have counted : tree.errorCount profile = tree.sites.countP fun s => s.node.isError && s.isReached profile := by
    rw [errorCount_eq_countP, reached_eq_sites, List.countP_map, List.countP_filter]
    rfl
  refine ⟨counted, ?_⟩
  have among : (tree.sites.countP fun s => s.node.isError && s.isReached profile) =
      (tree.sites.filter (·.node.isError)).countP (Site.isReached profile) := by
    rw [List.countP_filter]
    exact List.countP_congr fun s _ => by rw [Bool.and_comm]
  have all : tree.sites.countP (·.node.isError) = (tree.sites.filter (·.node.isError)).length :=
    List.countP_eq_length_filter
  rw [counted, among, all, List.countP_eq_length]
  simp only [List.mem_filter, and_imp]

/-- A paragraph header that a parser repaired, and an error after it. -/
def damaged : Node :=
  mk "procedure_division".toList "PROCEDURE DIVISION. MAIN-PARA ). )".toList 1 2 false
    [mk "paragraph_header".toList "MAIN-PARA ).".toList 2 2 false
      [mk "label".toList "MAIN-PARA".toList 2 2 false [],
        mk "ERROR".toList ")".toList 2 2 true []],
      mk "ERROR".toList ")".toList 2 2 true []]

/-- The error inside the header is not counted. -/
theorem errorCount_damaged :
    damaged.errorCount Profile.standard = 1 ∧ damaged.sites.countP (·.node.isError) = 2 := by
  decide

end CobolAtlas.Node
