/-
# CobolAtlas.Proofs.Syntax.Extents -- the lines of a syntax tree

In a tree that is well placed every node ends on the line it starts on or below, holds the nodes right below it, and
these come one after the other (`Node.WellPlaced`).  A visit reports the line on which an inner node starts and the
one on which a leaf ends, and on such a tree the lines of what it reports never fall (`events_ascending`).

The main statement is `ofTree_inOrder`: what a program records of a well-placed tree lies in order on lines up to the
one on which the tree ends.
-/
import CobolAtlas.Proofs.Program.Order
import CobolAtlas.Proofs.Syntax.Visit
import Mathlib.Data.List.Chain

namespace CobolAtlas

set_option autoImplicit false

namespace Node

/-! ## Well-placed trees -/

/-- The node ends where it starts or below, and the nodes right below it lie inside it one after the other; one may
start on the line on which the one before it ends. -/
structure IsPlaced (node : Node) : Prop where
  forward : node.startLine ≤ node.endLine
  within : ∀ child ∈ node.children, node.startLine ≤ child.startLine ∧ child.endLine ≤ node.endLine
  inTurn : node.children.IsChain fun child next => child.endLine ≤ next.startLine

instance (node : Node) : Decidable node.IsPlaced :=
  decidable_of_iff
    (node.startLine ≤ node.endLine ∧
      (∀ child ∈ node.children, node.startLine ≤ child.startLine ∧ child.endLine ≤ node.endLine) ∧
        node.children.IsChain fun child next => child.endLine ≤ next.startLine)
    ⟨fun ⟨forward, within, inTurn⟩ => ⟨forward, within, inTurn⟩, fun h => ⟨h.forward, h.within, h.inTurn⟩⟩

/-- Every node of the tree is placed. -/
def WellPlaced (tree : Node) : Prop := ∀ s ∈ tree.sites, s.node.IsPlaced

instance (tree : Node) : Decidable tree.WellPlaced := inferInstanceAs (Decidable (∀ s ∈ tree.sites, s.node.IsPlaced))

/-! ## The lines of a visit -/

variable {profile : Profile}

/-- What a node makes of itself is on the line it starts on. -/
theorem line?_ownEvents {node : Node} {e : Event} (member : e ∈ node.ownEvents profile) {line : LineNumber}
    (there : e.line? = some line) : line = node.startLine := by
  unfold ownEvents at member
  cases role : profile.role? node.kind with
  | none =>
    rw [role] at member
    cases member
  | some r =>
    rw [role] at member
    cases r with
    | dataItem =>
      obtain ⟨item, described, rfl⟩ := Option.map_eq_some_iff.1 (Option.mem_toList.1 member)
      obtain ⟨level, -, rfl⟩ := Option.map_eq_some_iff.1 described
      exact (Option.some.inj there).symm
    | call | perform | goTo =>
      obtain ⟨s, stated, rfl⟩ := Option.map_eq_some_iff.1 (Option.mem_toList.1 member)
      obtain ⟨target, -, rfl⟩ := Option.map_eq_some_iff.1 stated
      exact (Option.some.inj there).symm
    | programName | dataSection _ =>
      rw [List.mem_singleton.1 member] at there
      cases there
    | division _ | sectionHeader | paragraphHeader =>
      rw [List.mem_singleton.1 member] at there
      exact (Option.some.inj there).symm

/-- The lines of what the visit of a node reports. -/
def eventLines (profile : Profile) (node : Node) : List LineNumber := (node.events profile).filterMap Event.line?

/-- A visit reports the line on which the node starts, and then the line on which a leaf ends or the lines of the
nodes right below. -/
theorem eventLines_eq (node : Node) :
    node.eventLines profile = (node.ownEvents profile).filterMap Event.line? ++
      if isClosed profile node.kind then []
      else if node.children.isEmpty then [node.endLine] else node.children.flatMap (eventLines profile) := by
  obtain ⟨kind, text, startLine, endLine, isError, children⟩ := node
  rw [eventLines, events, allEvents_eq, List.filterMap_append]
  congr 1
  show _ = if isClosed profile kind then [] else if children.isEmpty then [endLine] else _
  split
  · rfl
  · split
    · rfl
    · exact List.filterMap_flatMap

theorem rise_ownEvents (node : Node) :
    LineNumber.Rise ((node.ownEvents profile).filterMap Event.line?) node.startLine node.startLine := by
  have onStart : ∀ line ∈ (node.ownEvents profile).filterMap Event.line?, line = node.startLine := by
    intro line member
    obtain ⟨e, reported, there⟩ := List.mem_filterMap.1 member
    exact line?_ownEvents reported there
  refine ⟨List.pairwise_of_forall_mem_list fun l first m second => ?_, fun l member => ?_⟩
  · rw [onStart l first, onStart m second]
    exact UInt32.le_refl _
  · rw [onStart l member]
    exact ⟨UInt32.le_refl _, UInt32.le_refl _⟩

/-- The lines of nodes that come one after the other rise. -/
theorem rise_flatMap {nodes : List Node} {first last : LineNumber} (le : first ≤ last)
    (inTurn : nodes.IsChain fun node next => node.endLine ≤ next.startLine)
    (below : ∀ node ∈ nodes.head?, first ≤ node.startLine)
    (each : ∀ node ∈ nodes, node.startLine ≤ node.endLine ∧ node.endLine ≤ last ∧
      LineNumber.Rise (node.eventLines profile) node.startLine node.endLine) :
    LineNumber.Rise (nodes.flatMap (eventLines profile)) first last := by
  induction nodes generalizing first with
  | nil => exact ⟨.nil, fun l member => absurd member List.not_mem_nil⟩
  | cons node nodes ih =>
    obtain ⟨forward, inside, rise⟩ := each node List.mem_cons_self
    obtain ⟨next, rest⟩ := List.isChain_cons.1 inTurn
    have after := ih inside rest next fun n member => each n (List.mem_cons_of_mem node member)
    exact (rise.append after forward inside).mono (below node rfl)

/-- **The lines of a visit.**  On a well-placed tree the lines of what a visit reports rise from the line on which the
tree starts to the one on which it ends. -/
theorem rise_eventLines (node : Node) {above : List Text} (placed : ∀ s ∈ sitesBelow above node, s.node.IsPlaced) :
    LineNumber.Rise (node.eventLines profile) node.startLine node.endLine := by
  induction node using induction generalizing above with
  | step node ih =>
    rw [sitesBelow_eq] at placed
    have here : node.IsPlaced := placed ⟨above, node⟩ List.mem_cons_self
    have sites (child : Node) (member : child ∈ node.children) :
        ∀ s ∈ sitesBelow (node.kind :: above) child, s.node.IsPlaced := fun s inside =>
      placed s (List.mem_cons_of_mem _ (List.mem_flatMap.2 ⟨child, member, inside⟩))
    have forward (child : Node) (member : child ∈ node.children) : child.startLine ≤ child.endLine := by
      have placed := sites child member ⟨node.kind :: above, child⟩ (by rw [sitesBelow_eq]; exact List.mem_cons_self)
      exact placed.forward
    rw [eventLines_eq]
    refine (rise_ownEvents node).append ?_ (UInt32.le_refl _) here.forward
    split
    · exact ⟨.nil, fun l member => absurd member List.not_mem_nil⟩
    · split
      · refine ⟨List.pairwise_singleton _ _, fun l member => ?_⟩
        rw [List.mem_singleton.1 member]
        exact ⟨here.forward, UInt32.le_refl _⟩
      · refine rise_flatMap here.forward here.inTurn (fun child first => ?_) fun child member => ?_
        · exact (here.within child (List.mem_of_head? first)).1
        · exact ⟨forward child member, (here.within child member).2, ih child member (sites child member)⟩

end Node

/-- **The extents of a tree.**  What a program records of a well-placed tree lies in order on lines up to the one on
which the tree ends: paragraphs one after the other, statements inside their paragraphs, items in their order. -/
theorem Program.ofTree_inOrder (profile : Profile) (path : Path) (backend : Text) {tree : Node}
    (placed : tree.WellPlaced) : (ofTree profile path backend tree).InOrder tree.endLine := by
  have rise : LineNumber.Rise (tree.eventLines profile) 0 tree.endLine :=
    (Node.rise_eventLines tree placed).mono UInt32.zero_le
  refine Assembly.finish_inOrder (Assembly.run_inOrder (Assembly.start_inOrder path backend) UInt32.zero_le ?_)
  rw [List.filterMap_append]
  -- the count of errors is on no line
  exact (List.append_nil (tree.eventLines profile)).symm ▸ rise

/-- A call that ends on the line of the next paragraph, and two items on one line. -/
def dense : Node :=
  .mk "start".toList [] 1 4 false
    [.mk "data_division".toList [] 1 1 false
        [.mk "working_storage_section".toList [] 1 1 false
            [.mk "data_description".toList [] 1 1 false [.mk "level_number".toList "01".toList 1 1 false []],
              .mk "data_description".toList [] 1 1 false [.mk "level_number".toList "77".toList 1 1 false []]]],
      .mk "procedure_division".toList [] 2 4 false
        [.mk "paragraph_header".toList "FIRST-PARA.".toList 2 2 false [],
          .mk "perform_statement_loop".toList "PERFORM STEP-A".toList 3 4 false
            [.mk "call_statement".toList "CALL 'SUB'".toList 3 4 false []],
          .mk "paragraph_header".toList "LAST-PARA.".toList 4 4 false []]]

theorem Program.ofTree_inOrder_dense :
    dense.WellPlaced ∧ (ofTree Profile.standard ⟨"/src/dense.cbl".toList⟩ [] dense).InOrder 4 ∧
      (ofTree Profile.standard ⟨"/src/dense.cbl".toList⟩ [] dense).paragraphs.map (fun p => (p.line, p.endLine)) =
        [(2, 4), (4, 4)] := by
  have placed : dense.WellPlaced := by decide
  exact ⟨placed, ofTree_inOrder Profile.standard ⟨"/src/dense.cbl".toList⟩ [] placed, by decide +kernel⟩

end CobolAtlas
