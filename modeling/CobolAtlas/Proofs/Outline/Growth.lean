/-
# CobolAtlas.Proofs.Outline.Growth -- the outline of nodes added one after another

`Additions` is a sequence of nodes to add, each below an earlier one or below none.  A node is known by its place in the
sequence, since two nodes may carry the same data.  What the outline has to hold is read off the sequence alone: the
children of a place are the places that were added below it (`childPlaces`), all of them come after it, and the chain
of parents of a place is one.  So the places below two children of a node are apart, and listing parents first meets
each place that hangs from the root once (`mem_places_iff`, `nodup_places`).

The other half is the invariant of the grown nodes.  One step keeps `Growth.Follows`: each entry holds the data that was
added at its place and the places that were added below it so far, and the root is the first place without a parent.
From it the tree that is read off the entries and the search through them are those of the sequence (`subtree?_eq_below`,
`descendants_eq_places`); the bound on the depth under which they are made is never reached.

The main statement is `Additions.grown_holds_what_hangs`.
-/
import CobolAtlas.Outline.Growth
import CobolAtlas.Proofs.Outline.Basic
import CobolAtlas.Proofs.Outline.Wire
import Mathlib.Data.List.FinRange
import Mathlib.Data.List.Nodup

namespace CobolAtlas

set_option autoImplicit false

/-- Nodes to add one after another; a parent is added before its children. -/
structure Additions where
  list : List Addition
  parent_lt : ∀ (i : Nat) (a : Addition), list[i]? = some a → ∀ p, a.parent = some p → p < i

namespace Additions

/-! ## Places -/

section Places

variable (a : Additions)

/-- A place in the order of addition. -/
abbrev Place : Type := Fin a.list.length

/-- The node that was added at a place. -/
def nodeAt (i : a.Place) : NodeData := a.list[i].data

/-- The first place without a parent. -/
def root? : Option a.Place := (List.finRange a.list.length).find? fun i => a.list[i].parent.isNone

/-- The places that were added below a place, in the order of their addition. -/
def childPlaces (i : a.Place) : List a.Place :=
  (List.finRange a.list.length).filter fun j => decide (a.list[j].parent = some i.val)

/-- The chain of parents of a place ends at `root`. -/
inductive HangsFrom (root : a.Place) : a.Place → Prop
  | root : HangsFrom root root
  | child {parent i : a.Place} (added : a.list[i].parent = some parent.val) (hangs : HangsFrom root parent) :
      HangsFrom root i

variable {a}

theorem mem_childPlaces {i j : a.Place} : j ∈ a.childPlaces i ↔ a.list[j].parent = some i.val := by
  rw [childPlaces, List.mem_filter, decide_eq_true_iff]
  exact and_iff_right (List.mem_finRange j)

theorem first_of_root? {root : a.Place} (isRoot : a.root? = some root) :
    a.list[root].parent = none ∧ ∀ i < root, a.list[i].parent ≠ none := by
  obtain ⟨noParent, n, bound, here, before⟩ := List.find?_eq_some_iff_getElem.1 isRoot
  rw [List.getElem_finRange] at here
  subst here
  refine ⟨Option.isNone_iff_eq_none.1 noParent, fun i earlier parentless => ?_⟩
  have parented : (!a.list[i].parent.isNone) = true := by
    have at_ := before i earlier
    rwa [List.getElem_finRange] at at_
  rw [parentless] at parented
  cases parented

/-- A parent was there before its children. -/
theorem lt_of_parent {i j : a.Place} (added : a.list[j].parent = some i.val) : i < j :=
  a.parent_lt j a.list[j] (List.getElem?_eq_getElem j.isLt) i added

theorem le_of_hangsFrom {root i : a.Place} (hangs : a.HangsFrom root i) : root ≤ i := by
  induction hangs with
  | root => exact Nat.le_refl _
  | child added _ ih => exact le_trans ih (le_of_lt (lt_of_parent added))

/-- What hangs from a place that hangs from the root hangs from the root. -/
theorem HangsFrom.trans {root i j : a.Place} (upper : a.HangsFrom root i) (lower : a.HangsFrom i j) :
    a.HangsFrom root j := by
  induction lower with
  | root => exact upper
  | child added _ ih => exact .child added ih

/-- The chain from a place goes up through one place after the other, so of two places on it one hangs from the
other. -/
theorem HangsFrom.comparable {i j k : a.Place} (fromI : a.HangsFrom i k) (fromJ : a.HangsFrom j k) :
    a.HangsFrom i j ∨ a.HangsFrom j i := by
  induction fromI with
  | root => exact .inr fromJ
  | child added hangs ih =>
    cases fromJ with
    | root => exact .inl (.child added hangs)
    | child added' hangs' =>
      obtain rfl := Fin.val_injective (Option.some.inj (added.symm.trans added'))
      exact ih hangs'

/-- A place that hangs from another hangs from one of its children. -/
theorem HangsFrom.through_child {root i : a.Place} (hangs : a.HangsFrom root i) (other : i ≠ root) :
    ∃ child ∈ a.childPlaces root, a.HangsFrom child i := by
  induction hangs with
  | root => exact absurd rfl other
  | @child parent i added _ ih =>
    by_cases here : parent = root
    · subst here
      exact ⟨i, mem_childPlaces.2 added, .root⟩
    · obtain ⟨next, isChild, hangs⟩ := ih here
      exact ⟨next, isChild, .child added hangs⟩

/-- Nothing hangs from two children of one node. -/
theorem not_hangsFrom_both {i j j' k : a.Place} (first : a.list[j].parent = some i.val)
    (second : a.list[j'].parent = some i.val) (apart : j ≠ j') (fromFirst : a.HangsFrom j k)
    (fromSecond : a.HangsFrom j' k) : False := by
  have up : ∀ {m n : a.Place}, a.list[m].parent = some i.val → a.list[n].parent = some i.val → m ≠ n →
      ¬ a.HangsFrom m n := by
    intro m n childM childN differ hangs
    cases hangs with
    | root => exact differ rfl
    | child added above =>
      -- the parent of `n` is `i`, which comes before `m`
      obtain rfl := Fin.val_injective (Option.some.inj (added.symm.trans childN))
      exact absurd (le_of_hangsFrom above) (not_le.2 (lt_of_parent childM))
  rcases fromFirst.comparable fromSecond with one | other
  · exact up first second apart one
  · exact up second first apart.symm other

end Places

/-! ## Listing places -/

section Listing

variable (a : Additions)

/-- A place and all that hang from it, parents first. -/
def places (i : a.Place) : List a.Place :=
  i :: (a.childPlaces i).attach.flatMap fun j => places j.1
termination_by a.list.length - i
decreasing_by
  have after : i.val < j.1.val := lt_of_parent (mem_childPlaces.1 j.2)
  omega

variable {a}

theorem places_eq (i : a.Place) : a.places i = i :: (a.childPlaces i).flatMap a.places := by
  rw [places, List.flatMap_subtype (g := a.places) (fun _ _ => rfl), List.unattach_attach]

/-- What a place has because all its children have it, every place has. -/
theorem place_induction {P : a.Place → Prop} (step : ∀ i, (∀ j ∈ a.childPlaces i, P j) → P i) (i : a.Place) :
    P i := by
  induction remaining : a.list.length - i.val using Nat.strong_induction_on generalizing i with
  | _ remaining ih =>
    refine step i fun j isChild => ih _ ?_ j rfl
    have after : i.val < j.val := lt_of_parent (mem_childPlaces.1 isChild)
    have bound := j.isLt
    omega

theorem mem_places_iff {i k : a.Place} : k ∈ a.places i ↔ a.HangsFrom i k := by
  induction i using place_induction with
  | step i ih =>
    rw [places_eq, List.mem_cons, List.mem_flatMap]
    constructor
    · rintro (rfl | ⟨j, isChild, member⟩)
      · exact .root
      · exact HangsFrom.trans (.child (mem_childPlaces.1 isChild) .root) ((ih j isChild).1 member)
    · intro hangs
      by_cases here : k = i
      · exact .inl here
      · obtain ⟨j, isChild, hangs⟩ := hangs.through_child here
        exact .inr ⟨j, isChild, (ih j isChild).2 hangs⟩

theorem nodup_childPlaces (i : a.Place) : (a.childPlaces i).Nodup := (List.nodup_finRange _).filter _

/-- Children stand in the order of their addition. -/
theorem ascending_childPlaces (i : a.Place) : (a.childPlaces i).Pairwise (· < ·) :=
  (List.pairwise_lt_finRange _).filter _

theorem nodup_places (i : a.Place) : (a.places i).Nodup := by
  induction i using place_induction with
  | step i ih =>
    rw [places_eq, List.nodup_cons, List.nodup_flatMap]
    refine ⟨fun again => ?_, ih, ?_⟩
    · obtain ⟨j, isChild, member⟩ := List.mem_flatMap.1 again
      exact absurd (le_of_hangsFrom (mem_places_iff.1 member)) (not_le.2 (lt_of_parent (mem_childPlaces.1 isChild)))
    · refine (nodup_childPlaces i).imp_of_mem fun first second apart => ?_
      intro k inFirst inSecond
      exact not_hangsFrom_both (mem_childPlaces.1 first) (mem_childPlaces.1 second) apart
        (mem_places_iff.1 inFirst) (mem_places_iff.1 inSecond)

end Listing

/-! ## The outline below a place -/

section Below

variable (a : Additions)

/-- The outline of the node at a place and of all that hang from it. -/
def below (i : a.Place) : Outline := .node (a.nodeAt i) ((a.childPlaces i).attach.map fun j => below j.1)
termination_by a.list.length - i
decreasing_by
  have after : i.val < j.1.val := lt_of_parent (mem_childPlaces.1 j.2)
  omega

variable {a}

/-- A node stands above the outlines of its children. -/
theorem below_eq (i : a.Place) : a.below i = .node (a.nodeAt i) ((a.childPlaces i).map a.below) := by
  rw [below, List.map_subtype (g := a.below) (fun _ _ => rfl), List.unattach_attach]

/-- The nodes of an outline are those of its places. -/
theorem preorder_below (i : a.Place) : (a.below i).preorder = (a.places i).map a.below := by
  induction i using place_induction with
  | step i ih =>
    rw [Outline.preorder_eq, places_eq, List.map_cons, List.map_flatMap]
    have children : (a.below i).children = (a.childPlaces i).map a.below := by rw [below_eq]; rfl
    rw [children, List.flatMap_map, List.flatMap_congr ih]

/-- A path is found at the first of these places whose node carries it. -/
theorem find?_below (i : a.Place) (path : Text) :
    (a.below i).find? path = ((a.places i).find? fun j => (a.nodeAt j).path == path).map a.below := by
  have data : ∀ j : a.Place, (a.below j).data = a.nodeAt j := fun j => by rw [below_eq]; rfl
  rw [Outline.find?, preorder_below, List.find?_map]
  simp only [Function.comp_def, data]

/-- The nested form of a node holds the nested forms of its children. -/
theorem toJson_below_showsNode (i : a.Place) :
    (a.below i).toJson.ShowsNode (a.nodeAt i) ((a.childPlaces i).map fun j => (a.below j).toJson) := by
  have shown := (a.below i).toJson_showsNode
  rw [below_eq] at shown ⊢
  simp only [Outline.data, Outline.children, List.map_map] at shown
  exact shown

end Below

end Additions

/-! ## Reading the entries -/

namespace Growth

section Entries

variable {g : Growth}

theorem children_bounds {i c : Nat} (isChild : c ∈ g.children i) : i < c ∧ c < g.entries.length := by
  rw [children] at isChild
  cases found : g.entries[i]? with
  | none => rw [found] at isChild; cases isChild
  | some e => rw [found] at isChild; exact g.children_after i e found c isChild

theorem node?_eq_none {i : Nat} (beyond : g.entries.length ≤ i) : g.node? i = none := by
  rw [node?, List.getElem?_eq_none beyond, Option.map_none]

theorem children_eq_nil {i : Nat} (beyond : g.entries.length ≤ i) : g.children i = [] := by
  rw [children, List.getElem?_eq_none beyond, Option.map_none, Option.getD_none]

/-- The bound on the depth does not matter where it is as large as the number of places after the node. -/
theorem subtree?_eq {depth i : Nat} (enough : g.entries.length ≤ i + depth) :
    g.subtree? depth i = (g.node? i).map fun data => .node data ((g.children i).filterMap (g.subtree? depth)) := by
  -- a child comes after its parent, so for the child a depth that is less by one is enough
  induction depth generalizing i with
  | zero => rw [subtree?, node?_eq_none (by simpa using enough)]; rfl
  | succ depth ih =>
    rw [subtree?]
    congr 2; funext data; congr 1
    refine List.filterMap_congr fun c isChild => ?_
    have after := children_bounds isChild
    rw [ih (by omega), subtree?]

theorem descendants_eq {depth i : Nat} (enough : g.entries.length ≤ i + depth) :
    g.descendants depth i = i :: (g.children i).flatMap (g.descendants depth) := by
  induction depth generalizing i with
  | zero => rw [descendants, children_eq_nil (by simpa using enough), List.flatMap_nil]
  | succ depth ih =>
    rw [descendants]
    congr 1
    refine List.flatMap_congr fun c isChild => ?_
    have after := children_bounds isChild
    rw [ih (by omega), descendants]

end Entries

/-! ## Entries and additions -/

/-- The places that were added below a place. -/
def placesBelow (additions : List Addition) (i : Nat) : List Nat :=
  (additions.zipIdx.filter fun (a, _) => a.parent = some i).map (·.2)

/-- The first place that was added without a parent. -/
def firstParentless? (additions : List Addition) : Option Nat :=
  (additions.zipIdx.find? (·.1.parent.isNone)).map (·.2)

/-- The nodes that were added, each with the places below it. -/
def recorded (additions : List Addition) : List Entry :=
  additions.mapIdx fun i a => ⟨a.data, placesBelow additions i⟩

/-- The entries are what was added, and the root is the first place without a parent. -/
structure Follows (g : Growth) (additions : List Addition) : Prop where
  entries : g.entries = recorded additions
  root : g.root = firstParentless? additions

theorem placesBelow_concat (additions : List Addition) (a : Addition) (i : Nat) :
    placesBelow (additions ++ [a]) i =
      placesBelow additions i ++ if a.parent = some i then [additions.length] else [] := by
  rw [placesBelow, List.zipIdx_append, List.filter_append, List.map_append]
  by_cases below : a.parent = some i <;> simp [below, placesBelow]

theorem firstParentless?_concat (additions : List Addition) (a : Addition) :
    firstParentless? (additions ++ [a]) =
      (firstParentless? additions).or (if a.parent.isNone then some additions.length else none) := by
  rw [firstParentless?, List.zipIdx_append, List.find?_append]
  cases found : additions.zipIdx.find? (·.1.parent.isNone) <;> cases parent : a.parent <;>
    simp [found, parent, firstParentless?]

@[simp] theorem length_recorded (additions : List Addition) : (recorded additions).length = additions.length := by
  simp [recorded]

theorem getElem?_recorded (additions : List Addition) (i : Nat) :
    (recorded additions)[i]? = additions[i]?.map fun a => ⟨a.data, placesBelow additions i⟩ :=
  List.getElem?_mapIdx

/-- A node that is added changes its parent's entry alone and stands without children. -/
theorem recorded_concat {additions : List Addition} {a : Addition}
    (earlier : ∀ b ∈ additions ++ [a], ∀ p, b.parent = some p → p < additions.length) :
    recorded (additions ++ [a]) = appended (recorded additions) a.parent a.data := by
  refine List.ext_getElem? fun i => ?_
  rw [getElem?_recorded, getElem?_appended, length_recorded, placesBelow_concat]
  by_cases last : i = additions.length
  · -- no parent stands at the new place
    subst last
    have childless : placesBelow additions additions.length = [] := by
      refine List.map_eq_nil_iff.2 (List.filter_eq_nil_iff.2 fun ⟨b, j⟩ member below => ?_)
      have before := earlier b (List.mem_append_left _ (List.fst_mem_of_mem_zipIdx member)) _ (of_decide_eq_true below)
      exact Nat.lt_irrefl _ before
    have notItself : a.parent ≠ some additions.length := fun itself =>
      Nat.lt_irrefl _ (earlier a (by simp) _ itself)
    rw [if_pos rfl, List.getElem?_concat_length, childless, if_neg notItself]
    rfl
  · have same : (additions ++ [a])[i]? = additions[i]? := by
      rw [List.getElem?_append]
      split
      · rfl
      · rw [List.getElem?_singleton, if_neg (by omega), List.getElem?_eq_none (by omega)]
    rw [if_neg last, same, getElem?_recorded, Option.map_map]
    refine Option.map_congr fun b _ => ?_
    by_cases below : a.parent = some i <;> simp [below, Entry.withChild]

theorem Follows.length {g : Growth} {additions : List Addition} (follows : g.Follows additions) :
    g.entries.length = additions.length := by
  rw [follows.entries, length_recorded]

theorem follows_empty : empty.Follows [] := ⟨rfl, rfl⟩

/-- **One step.**  An addition below an earlier node, or below none, can be carried out, and the grown nodes follow
it. -/
theorem Follows.step? {g : Growth} {additions : List Addition} {a : Addition} (follows : g.Follows additions)
    (earlier : ∀ b ∈ additions ++ [a], ∀ p, b.parent = some p → p < additions.length) :
    ∃ g', g.step? a = some g' ∧ g'.Follows (additions ++ [a]) := by
  have length := follows.length
  have added : ∀ parent : Option (Fin g.entries.length), parent.map Fin.val = a.parent →
      (g.add parent a.data).Follows (additions ++ [a]) := by
    intro parent same
    refine ⟨?_, ?_⟩
    · rw [recorded_concat earlier, ← same, ← follows.entries]
      rfl
    · rw [firstParentless?_concat, ← follows.root, ← length, ← same]
      cases parent <;> cases root : g.root <;> simp [Growth.add, root]
  cases below : a.parent with
  | none => exact ⟨g.add none a.data, by rw [Growth.step?, below], added none below.symm⟩
  | some p =>
    have bound : p < g.entries.length := length ▸ earlier a (by simp) p below
    exact ⟨g.add (some ⟨p, bound⟩) a.data, by rw [Growth.step?, below]; exact dif_pos bound,
      added (some ⟨p, bound⟩) below.symm⟩

end Growth

namespace Additions

/-! ## Outlines of additions -/

section Grown

variable {a : Additions}

/-- **A run of steps.**  Additions whose parents are there in time are carried out one and all, and the grown nodes
follow them. -/
theorem exists_grown (a : Additions) : ∃ g, Growth.empty.run? a.list = some g ∧ g.Follows a.list := by
  obtain ⟨additions, parent_lt⟩ := a
  simp only
  induction additions using List.reverseRecOn with
  | nil => exact ⟨.empty, rfl, Growth.follows_empty⟩
  | append_singleton additions a ih =>
    obtain ⟨g, ran, follows⟩ := ih fun i b found => parent_lt i b (by
      rwa [List.getElem?_append_left (List.getElem?_eq_some_iff.1 found).1])
    have earlier : ∀ b ∈ additions ++ [a], ∀ p, b.parent = some p → p < additions.length := by
      intro b member p below
      obtain ⟨i, found⟩ := List.mem_iff_getElem?.1 member
      have bound : i < (additions ++ [a]).length := (List.getElem?_eq_some_iff.1 found).1
      have before := parent_lt i b found p below
      rw [List.length_append, List.length_singleton] at bound
      omega
    obtain ⟨g', stepped, follows'⟩ := follows.step? earlier
    refine ⟨g', ?_, follows'⟩
    rw [Growth.run?, List.foldlM_append, ← Growth.run?, ran]
    simpa using stepped

theorem zipIdx_list : a.list.zipIdx = (List.finRange a.list.length).map fun i => (a.list[i], i.val) := by
  refine List.ext_getElem (by simp) fun n _ _ => ?_
  simp

theorem placesBelow_list (i : Nat) :
    Growth.placesBelow a.list i =
      ((List.finRange a.list.length).filter fun j => a.list[j].parent = some i).map Fin.val := by
  rw [Growth.placesBelow, zipIdx_list, List.filter_map, List.map_map]
  rfl

variable {g : Growth}

theorem node?_eq (follows : g.Follows a.list) (i : a.Place) : g.node? i = some (a.nodeAt i) := by
  rw [Growth.node?, follows.entries, Growth.getElem?_recorded, Option.map_map, List.getElem?_eq_getElem i.isLt]
  rfl

theorem children_eq (follows : g.Follows a.list) (i : a.Place) : g.children i = (a.childPlaces i).map Fin.val := by
  rw [Growth.children, follows.entries, Growth.getElem?_recorded, Option.map_map, List.getElem?_eq_getElem i.isLt]
  exact placesBelow_list i

theorem root_eq (follows : g.Follows a.list) : g.root = a.root?.map Fin.val := by
  rw [follows.root, Growth.firstParentless?, zipIdx_list, List.find?_map, Option.map_map]
  rfl

/-- The tree that is read off the entries is the one of the additions. -/
theorem subtree?_eq_below (follows : g.Follows a.list) {depth : Nat} (i : a.Place)
    (enough : a.list.length ≤ i + depth) : g.subtree? depth i = some (a.below i) := by
  induction i using place_induction with
  | step i ih =>
    rw [Growth.subtree?_eq (by rwa [follows.length]), node?_eq follows, children_eq follows, below_eq,
      Option.map_some, List.filterMap_map, ← List.filterMap_eq_map]
    congr 2
    refine List.filterMap_congr fun j isChild => ih j isChild ?_
    have after : i.val < j.val := lt_of_parent (mem_childPlaces.1 isChild)
    omega

/-- The search goes through the places of the additions. -/
theorem descendants_eq_places (follows : g.Follows a.list) {depth : Nat} (i : a.Place)
    (enough : a.list.length ≤ i + depth) : g.descendants depth i = (a.places i).map Fin.val := by
  induction i using place_induction with
  | step i ih =>
    rw [Growth.descendants_eq (by rwa [follows.length]), children_eq follows, places_eq, List.map_cons,
      List.flatMap_map, List.map_flatMap]
    congr 1
    refine List.flatMap_congr fun j isChild => ih j isChild ?_
    have after : i.val < j.val := lt_of_parent (mem_childPlaces.1 isChild)
    omega

theorem outline?_eq (follows : g.Follows a.list) : g.outline? = a.root?.map a.below := by
  rw [Growth.outline?, root_eq follows]
  cases a.root? with
  | none => rfl
  | some root => exact subtree?_eq_below follows root (by rw [follows.length]; omega)

theorem find?_eq (follows : g.Follows a.list) (path : Text) :
    g.find? path = a.root?.bind fun root =>
      ((a.places root).find? fun i => (a.nodeAt i).path == path).map Fin.val := by
  rw [Growth.find?, root_eq follows]
  cases a.root? with
  | none => rfl
  | some root =>
    rw [Option.map_some, Option.bind_some, Option.bind_some,
      descendants_eq_places follows root (by rw [follows.length]; omega), List.find?_map]
    congr 2
    funext i
    rw [Function.comp_apply, node?_eq follows, Option.any_some]

/-- **A grown outline holds what hangs from its root.**  Every sequence of additions, each below none or below an
earlier one, can be carried out.  Where no node was added without a parent there is no outline then, its nested form is
null and no path is found.  Otherwise the root is the first node without a parent.  The outline's nodes, parents
first, are those at `places`, which are the places that hang from the root, each once.  Each of them has its own
data above the outlines of the places that were added below it, in the order of their addition, and its nested form
shows this.  A path is found at the first place in that order whose node carries it, both by the search through the
entries and in the outline. -/
theorem grown_holds_what_hangs (a : Additions) :
    ∃ g, Growth.empty.run? a.list = some g ∧
      match a.root? with
      | none =>
          (∀ i : a.Place, a.list[i].parent ≠ none) ∧ Json.ofOption Outline.toJson g.outline? = .null ∧
          ∀ path, g.find? path = none
      | some root =>
          (a.list[root].parent = none ∧ ∀ i < root, a.list[i].parent ≠ none) ∧
          g.outline? = some (a.below root) ∧ Json.ofOption Outline.toJson g.outline? = (a.below root).toJson ∧
          ((a.below root).preorder = (a.places root).map a.below ∧ (a.places root).Nodup ∧
            ∀ i, i ∈ a.places root ↔ a.HangsFrom root i) ∧
          (∀ i, a.below i = .node (a.nodeAt i) ((a.childPlaces i).map a.below) ∧
            (a.below i).toJson.ShowsNode (a.nodeAt i) ((a.childPlaces i).map fun j => (a.below j).toJson) ∧
            (∀ j, j ∈ a.childPlaces i ↔ a.list[j].parent = some i.val) ∧ (a.childPlaces i).Pairwise (· < ·)) ∧
          ∀ path,
            g.find? path = ((a.places root).find? fun i => (a.nodeAt i).path == path).map Fin.val ∧
            (a.below root).find? path = ((a.places root).find? fun i => (a.nodeAt i).path == path).map a.below := by
  obtain ⟨g, ran, follows⟩ := a.exists_grown
  refine ⟨g, ran, ?_⟩
  have outline := outline?_eq follows
  have finds := find?_eq follows
  split
  · rename_i noRoot
    rw [noRoot] at outline finds
    refine ⟨fun i isRoot => ?_, by rw [outline]; rfl, finds⟩
    have parented := List.find?_eq_none.1 noRoot i (List.mem_finRange i)
    exact parented (by rw [isRoot]; rfl)
  · rename_i root isRoot
    rw [isRoot] at outline finds
    exact ⟨first_of_root? isRoot, outline, by rw [outline]; rfl,
      ⟨preorder_below root, nodup_places root, fun i => mem_places_iff⟩,
      fun i => ⟨below_eq i, toJson_below_showsNode i, fun j => mem_childPlaces, ascending_childPlaces i⟩,
      fun path => ⟨finds path, find?_below root path⟩⟩

/-- A second node without a parent is in no outline, nor is what hangs from it. -/
example (folder inner other file : NodeData) :
    ((Growth.empty.run? [⟨none, folder⟩, ⟨some 0, inner⟩, ⟨none, other⟩, ⟨some 2, file⟩, ⟨some 0, file⟩]).bind
      Growth.outline?) = some (.node folder [.node inner [], .node file []]) := rfl

end Grown

end Additions

end CobolAtlas
