/-
# CobolAtlas.Outline.Growth -- outlines grown node by node

A `Growth` holds nodes in the order of their addition, each with the places of its children.  A new node becomes the
last child of its parent; the first node that is added without a parent is the root and stays it.  `outline?` is the
tree below the root, and `find?` gives the first place in that tree, parents first, whose node carries a path.
-/
import CobolAtlas.Outline.Basic

namespace CobolAtlas

set_option autoImplicit false

/-- A node that was added, and the places of its children. -/
structure Growth.Entry where
  data : NodeData
  children : List Nat

/-- Nodes in the order of their addition, and the place of the root; children come after their parents. -/
structure Growth where
  entries : List Growth.Entry
  root : Option Nat
  root_lt : ∀ r, root = some r → r < entries.length
  children_after : ∀ (i : Nat) (e : Growth.Entry), entries[i]? = some e →
    ∀ c ∈ e.children, i < c ∧ c < entries.length

/-- A node to be added, and the place of its parent. -/
structure Addition where
  parent : Option Nat
  data : NodeData

namespace Growth

/-- No nodes. -/
def empty : Growth where
  entries := []
  root := none
  root_lt := by simp
  children_after := by simp

/-- The entry with one more child behind the others. -/
def Entry.withChild (e : Entry) (child : Nat) : Entry := { e with children := e.children ++ [child] }

/-- The entries after one more node: the parent, if there is one, has it as its last child. -/
def appended (entries : List Entry) (parent : Option Nat) (data : NodeData) : List Entry :=
  entries.mapIdx (fun i e => if parent = some i then e.withChild entries.length else e) ++ [⟨data, []⟩]

@[simp] theorem length_appended (entries : List Entry) (parent : Option Nat) (data : NodeData) :
    (appended entries parent data).length = entries.length + 1 := by
  simp [appended]

/-- The new node stands at the end, the others where they stood. -/
theorem getElem?_appended (entries : List Entry) (parent : Option Nat) (data : NodeData) (i : Nat) :
    (appended entries parent data)[i]? =
      if i = entries.length then some ⟨data, []⟩
      else entries[i]?.map fun e => if parent = some i then e.withChild entries.length else e := by
  rcases Nat.lt_trichotomy i entries.length with before | rfl | after
  · rw [if_neg (Nat.ne_of_lt before), appended, List.getElem?_append_left (by simpa), List.getElem?_mapIdx]
  · simp [appended]
  · rw [if_neg (Nat.ne_of_gt after), List.getElem?_eq_none (Nat.le_of_lt after),
      List.getElem?_eq_none (by rw [length_appended]; exact after)]
    rfl

/-- One more node, below an earlier one or below none. -/
def add (g : Growth) (parent : Option (Fin g.entries.length)) (data : NodeData) : Growth where
  entries := appended g.entries (parent.map Fin.val) data
  root := if parent.isNone && g.root.isNone then some g.entries.length else g.root
  root_lt := by
    intro r isRoot
    rw [length_appended]
    split at isRoot
    · obtain rfl := Option.some.inj isRoot
      exact Nat.lt_succ_self _
    · exact Nat.lt_succ_of_lt (g.root_lt r isRoot)
  children_after := by
    intro i e found c isChild
    have kept : ∀ e', g.entries[i]? = some e' → c ∈ e'.children → i < c ∧ c < g.entries.length + 1 :=
      fun e' found isChild => (g.children_after i e' found c isChild).imp_right Nat.lt_succ_of_lt
    rw [length_appended]
    rw [getElem?_appended] at found
    split at found
    · obtain rfl := Option.some.inj found
      cases isChild
    · obtain ⟨e', found', rfl⟩ := Option.map_eq_some_iff.1 found
      split at isChild
      · rcases List.mem_append.1 isChild with earlier | new
        · exact kept e' found' earlier
        · obtain rfl := List.mem_singleton.1 new
          exact ⟨(List.getElem?_eq_some_iff.1 found').1, Nat.lt_succ_self _⟩
      · exact kept e' found' isChild

/-- The addition carried out; none where its parent was not added yet. -/
def step? (g : Growth) (a : Addition) : Option Growth :=
  match a.parent with
  | none => some (g.add none a.data)
  | some p => if h : p < g.entries.length then some (g.add (some ⟨p, h⟩) a.data) else none

/-- Additions carried out one after another. -/
def run? (g : Growth) (additions : List Addition) : Option Growth := additions.foldlM step? g

/-- The data of the node at a place. -/
def node? (g : Growth) (i : Nat) : Option NodeData := g.entries[i]?.map (·.data)

/-- The places of the children of a node, in the order of their addition. -/
def children (g : Growth) (i : Nat) : List Nat := (g.entries[i]?.map (·.children)).getD []

/-- The outline of the node at a place, at most `depth` levels down. -/
def subtree? (g : Growth) : Nat → Nat → Option Outline
  | 0, i => (g.node? i).map fun data => .node data []
  | depth + 1, i => (g.node? i).map fun data => .node data ((g.children i).filterMap (g.subtree? depth))

/-- A place and the places below it, parents first, at most `depth` levels down. -/
def descendants (g : Growth) : Nat → Nat → List Nat
  | 0, i => [i]
  | depth + 1, i => i :: (g.children i).flatMap (g.descendants depth)

/-- The tree below the root. -/
def outline? (g : Growth) : Option Outline := g.root.bind (g.subtree? g.entries.length)

/-- The first place below the root, parents first, whose node carries the path. -/
def find? (g : Growth) (path : Text) : Option Nat :=
  g.root.bind fun root =>
    (g.descendants g.entries.length root).find? fun i => (g.node? i).any (·.path == path)

end Growth

end CobolAtlas
