/-
# CobolAtlas.Proofs.Outline.Graft -- an outline that grows by another

Places of additions by their numbers: the outline at a place (`below?`) and the places that hang from it (`span`), each
once.  Where further additions stand for one outline that hangs from an earlier place (`Grafts`), the outlines of the
places apart from that one are what they were (`Grafts.below?_of_notMem`).  Along a chain of folders down to that place
the outline is the one with a leaf attached below the chain (`Grafts.below?_of_descend`), and a folder that is missing at
the end of a chain can as well be made beforehand (`attach_attach_of_descend`).

The nodes of a division are rows: some below one node, and leaves below it or below its rows.  What they stand for is
read off by filters (`below?_rows`).
-/
import CobolAtlas.Proofs.Outline.Growth

namespace CobolAtlas

set_option autoImplicit false

namespace Growth

/-! ## Places of additions -/

/-- Of further additions, from the place `n` on, those below a place. -/
def placesIn (n : Nat) (more : List Addition) (i : Nat) : List Nat :=
  ((more.zipIdx n).filter fun (a, _) => a.parent = some i).map (·.2)

section Places

variable {α : Type} {n i : Nat}

theorem placesBelow_append (additions more : List Addition) (i : Nat) :
    placesBelow (additions ++ more) i = placesBelow additions i ++ placesIn additions.length more i := by
  rw [placesBelow, List.zipIdx_append, List.filter_append, List.map_append, Nat.zero_add]
  rfl

theorem placesIn_append (n : Nat) (more rest : List Addition) (i : Nat) :
    placesIn n (more ++ rest) i = placesIn n more i ++ placesIn (n + more.length) rest i := by
  rw [placesIn, List.zipIdx_append, List.filter_append, List.map_append]
  rfl

theorem placesIn_cons (n : Nat) (a : Addition) (more : List Addition) (i : Nat) :
    placesIn n (a :: more) i = (if a.parent = some i then [n] else []) ++ placesIn (n + 1) more i := by
  rw [placesIn, List.zipIdx_cons]
  by_cases here : a.parent = some i <;> simp [here, placesIn]

theorem placesIn_map (n : Nat) (parent : α → Nat) (data : α → NodeData) (xs : List α) (i : Nat) :
    placesIn n (xs.map fun x => ⟨some (parent x), data x⟩) i =
      ((xs.zipIdx n).filter fun e => decide (parent e.1 = i)).map (·.2) := by
  rw [placesIn, List.zipIdx_map, List.filter_map, List.map_map]
  simp [Function.comp_def]

/-- What stands below a place was added. -/
theorem exists_of_mem_placesIn {more : List Addition} {c : Nat} (member : c ∈ placesIn n more i) :
    ∃ k a, more[k]? = some a ∧ a.parent = some i ∧ c = n + k := by
  obtain ⟨⟨a, j⟩, listed, rfl⟩ := List.mem_map.1 member
  obtain ⟨inList, below⟩ := List.mem_filter.1 listed
  obtain ⟨after, found⟩ := List.mem_zipIdx_iff_le_and_getElem?_sub.1 inList
  refine ⟨j - n, a, found, of_decide_eq_true below, ?_⟩
  omega

/-- What was added later stands behind. -/
theorem placesBelow_starts {additions additions' : List Addition} (starts : additions <+: additions') (i : Nat) :
    placesBelow additions i <+: placesBelow additions' i := by
  obtain ⟨more, rfl⟩ := starts
  rw [placesBelow_append]
  exact List.prefix_append _ _

theorem firstParentless?_append {additions : List Addition} (first : firstParentless? additions = some i)
    (more : List Addition) : firstParentless? (additions ++ more) = some i := by
  rw [firstParentless?, Option.map_eq_some_iff] at first
  obtain ⟨x, found, rfl⟩ := first
  rw [firstParentless?, List.zipIdx_append, List.find?_append, found]
  rfl

/-- What stands below a place after more was added stood there before or is new. -/
theorem mem_placesBelow_append {additions more : List Addition} {c : Nat}
    (isChild : c ∈ placesBelow (additions ++ more) i) :
    c ∈ placesBelow additions i ∧ c < additions.length ∨
      ∃ k x, more[k]? = some x ∧ c = additions.length + k := by
  rw [placesBelow_append, List.mem_append] at isChild
  rcases isChild with old | new
  · obtain ⟨k, x, found, -, rfl⟩ := exists_of_mem_placesIn (n := 0) old
    rw [Nat.zero_add] at old ⊢
    exact .inl ⟨old, (List.getElem?_eq_some_iff.1 found).1⟩
  · obtain ⟨k, x, found, -, rfl⟩ := exists_of_mem_placesIn new
    exact .inr ⟨k, x, found, rfl⟩

end Places

end Growth

namespace Additions

open Growth

variable {a a' : Additions}

/-! ## Outlines by the number of their place -/

/-- The outline at a place. -/
def below? (a : Additions) (i : Nat) : Option Outline :=
  if h : i < a.list.length then some (a.below ⟨i, h⟩) else none

/-- The places that hang from a place. -/
def span (a : Additions) (i : Nat) : List Nat :=
  if h : i < a.list.length then (a.places ⟨i, h⟩).map Fin.val else []

theorem lt_of_mem_placesBelow {i c : Nat} (isChild : c ∈ placesBelow a.list i) : i < c ∧ c < a.list.length := by
  obtain ⟨k, b, found, below, rfl⟩ := exists_of_mem_placesIn (n := 0) isChild
  rw [Nat.zero_add]
  exact ⟨a.parent_lt k b found i below, (List.getElem?_eq_some_iff.1 found).1⟩

theorem placesBelow_eq_nil {i : Nat} (beyond : a.list.length ≤ i) : placesBelow a.list i = [] := by
  refine List.eq_nil_iff_forall_not_mem.2 fun c isChild => ?_
  have bounds := lt_of_mem_placesBelow isChild
  omega

theorem below?_eq (a : Additions) (i : Nat) :
    a.below? i = a.list[i]?.map fun b => .node b.data ((placesBelow a.list i).filterMap a.below?) := by
  by_cases bound : i < a.list.length
  · have child (j : a.Place) : a.below? j.val = some (a.below j) := dif_pos j.isLt
    rw [below?, dif_pos bound, List.getElem?_eq_getElem bound, Option.map_some, below_eq, placesBelow_list,
      List.filterMap_map, childPlaces]
    congr 2
    rw [← List.filterMap_eq_map]
    exact List.filterMap_congr fun j _ => (child j).symm
  · rw [below?, dif_neg bound, List.getElem?_eq_none (Nat.not_lt.1 bound)]
    rfl

theorem span_eq {i : Nat} (bound : i < a.list.length) :
    a.span i = i :: (placesBelow a.list i).flatMap a.span := by
  have child (j : a.Place) : a.span j.val = (a.places j).map Fin.val := dif_pos j.isLt
  rw [span, dif_pos bound, places_eq, List.map_cons, List.map_flatMap, placesBelow_list, List.flatMap_map, childPlaces]
  congr 1
  exact List.flatMap_congr fun j _ => (child j).symm

theorem nodup_span (a : Additions) (i : Nat) : (a.span i).Nodup := by
  rw [span]
  split
  · exact (nodup_places _).map Fin.val_injective
  · exact List.nodup_nil

/-- What a place has because all places below it have it, every place has. -/
theorem number_induction (a : Additions) {P : Nat → Prop}
    (step : ∀ i, (∀ c ∈ placesBelow a.list i, P c) → P i) (i : Nat) : P i := by
  induction remaining : a.list.length - i using Nat.strong_induction_on generalizing i with
  | _ remaining ih =>
    refine step i fun c isChild => ih _ ?_ c rfl
    have bounds := lt_of_mem_placesBelow isChild
    omega

theorem lt_of_below? {i : Nat} {o : Outline} (found : a.below? i = some o) : i < a.list.length := by
  by_contra beyond
  rw [below?, dif_neg beyond] at found
  cases found

/-! ## Chains of folders -/

/-- Is the node at a place the folder? -/
def isFolderAt (additions : List Addition) (folder : Path) (i : Nat) : Bool :=
  additions[i]?.any fun b => Outline.isFolder folder (.node b.data [])

/-- The place that folders lead to, each below the one before. -/
def descend? (additions : List Addition) : List Path → Nat → Option Nat
  | [], i => some i
  | folder :: folders, i =>
      ((placesBelow additions i).find? (isFolderAt additions folder)).bind (descend? additions folders)

theorem isFolder_below? {folder : Path} {i : Nat} {o : Outline} (found : a.below? i = some o) :
    Outline.isFolder folder o = isFolderAt a.list folder i := by
  rw [below?_eq, Option.map_eq_some_iff] at found
  obtain ⟨b, here, rfl⟩ := found
  rw [isFolderAt, here]
  rfl

theorem isFolderAt_of_starts {additions additions' : List Addition} (starts : additions <+: additions') {folder : Path}
    {i : Nat} (bound : i < additions.length) : isFolderAt additions' folder i = isFolderAt additions folder i := by
  obtain ⟨more, rfl⟩ := starts
  rw [isFolderAt, isFolderAt, List.getElem?_append_left bound]

/-- Folders that lead to a place lead to it still when more is added. -/
theorem descend?_mono {additions additions' : List Addition} (starts : additions <+: additions')
    {folders : List Path} {i q : Nat} (found : descend? additions folders i = some q) :
    descend? additions' folders i = some q := by
  induction folders generalizing i with
  | nil => exact found
  | cons folder folders ih =>
    obtain ⟨c, isNext, found⟩ := Option.bind_eq_some_iff.1 found
    rw [descend?]
    suffices next : (placesBelow additions' i).find? (isFolderAt additions' folder) = some c by
      rw [next]
      exact ih found
    obtain ⟨isFolder, before, after, places, others⟩ := List.find?_eq_some_iff_append.1 isNext
    obtain ⟨more, same⟩ := placesBelow_starts starts i
    have bound {c : Nat} (isChild : c ∈ placesBelow additions i) : c < additions.length := by
      obtain ⟨k, b, here, -, rfl⟩ := exists_of_mem_placesIn (n := 0) isChild
      rw [Nat.zero_add]
      exact (List.getElem?_eq_some_iff.1 here).1
    refine List.find?_eq_some_iff_append.2 ⟨?_, before, after ++ more, ?_, fun b earlier => ?_⟩
    · rwa [isFolderAt_of_starts starts (bound (List.mem_of_find?_eq_some isNext))]
    · rw [← same, places, List.append_assoc, List.cons_append]
    · rw [isFolderAt_of_starts starts (bound (by rw [places]; exact List.mem_append_left _ earlier))]
      exact others b earlier

theorem descend?_append (additions : List Addition) (above below : List Path) (i : Nat) :
    descend? additions (above ++ below) i = (descend? additions above i).bind (descend? additions below) := by
  induction above generalizing i with
  | nil => rfl
  | cons folder above ih =>
    rw [List.cons_append, descend?, descend?, Option.bind_assoc]
    exact congrArg _ (funext ih)

theorem descend?_congr {additions : List Addition} {folders folders' : List Path}
    (same : folders.map Path.components = folders'.map Path.components) (i : Nat) :
    descend? additions folders i = descend? additions folders' i := by
  induction folders generalizing folders' i with
  | nil => rw [List.map_eq_nil_iff.1 same.symm]
  | cons folder folders ih =>
    obtain ⟨folder', folders', rfl, first, rest⟩ := List.map_eq_cons_iff.1 same.symm
    have isFolder : isFolderAt additions folder = isFolderAt additions folder' := by
      funext c
      simp only [isFolderAt, Outline.isFolder, Path.same, first]
    rw [descend?, descend?, isFolder]
    exact congrArg _ (funext (ih rest.symm))

theorem mem_span_of_descend {folders : List Path} {i q : Nat} (bound : i < a.list.length)
    (found : descend? a.list folders i = some q) : q ∈ a.span i := by
  induction folders generalizing i with
  | nil =>
    cases found
    rw [span_eq bound]
    exact List.mem_cons_self
  | cons folder folders ih =>
    obtain ⟨c, isNext, found⟩ := Option.bind_eq_some_iff.1 found
    have isChild := List.mem_of_find?_eq_some isNext
    rw [span_eq bound]
    exact List.mem_cons_of_mem i (List.mem_flatMap.2 ⟨c, isChild, ih (lt_of_mem_placesBelow isChild).2 found⟩)

theorem lt_of_descend {folders : List Path} {i q : Nat} (bound : i < a.list.length)
    (found : descend? a.list folders i = some q) : q < a.list.length := by
  have member := mem_span_of_descend bound found
  rw [span, dif_pos bound] at member
  obtain ⟨j, -, rfl⟩ := List.mem_map.1 member
  exact j.isLt

/-- On the way down a chain of folders one child is the next folder, and none before it is. -/
theorem exists_next_of_descend {folder : Path} {folders : List Path} {i q : Nat} {o : Outline}
    (found : descend? a.list (folder :: folders) i = some q) (here : a.below? i = some o) :
    ∃ b before c child after, a.list[i]? = some b ∧ placesBelow a.list i = before ++ c :: after ∧
      o = .node b.data (before.filterMap a.below? ++ child :: after.filterMap a.below?) ∧ a.below? c = some child ∧
      (∀ x ∈ before.filterMap a.below?, Outline.isFolder folder x = false) ∧ Outline.isFolder folder child = true ∧
      descend? a.list folders c = some q := by
  obtain ⟨c, isNext, found⟩ := Option.bind_eq_some_iff.1 found
  obtain ⟨isFolder, before, after, places, others⟩ := List.find?_eq_some_iff_append.1 isNext
  have isChild : c ∈ placesBelow a.list i := List.mem_of_find?_eq_some isNext
  obtain ⟨child, isNode⟩ : ∃ child, a.below? c = some child := ⟨_, dif_pos (lt_of_mem_placesBelow isChild).2⟩
  rw [below?_eq, Option.map_eq_some_iff] at here
  obtain ⟨b, atPlace, rfl⟩ := here
  refine ⟨b, before, c, child, after, atPlace, places, ?_, isNode, fun x member => ?_, ?_, found⟩
  · rw [places, List.filterMap_append, List.filterMap_cons_some isNode]
  · obtain ⟨d, isBefore, isSibling⟩ := List.mem_filterMap.1 member
    rw [isFolder_below? isSibling]
    simpa using others d isBefore
  · rwa [isFolder_below? isNode]

/-- What hangs from one child is neither the node itself nor hangs from another child. -/
theorem apart_of_mem_span {i q c : Nat} {before after : List Nat} (bound : i < a.list.length)
    (places : placesBelow a.list i = before ++ c :: after) (hangs : q ∈ a.span c) :
    i ≠ q ∧ (∀ d ∈ before, q ∉ a.span d) ∧ ∀ d ∈ after, q ∉ a.span d := by
  have distinct := a.nodup_span i
  rw [span_eq bound, List.nodup_cons, List.nodup_flatMap, places, List.pairwise_append, List.pairwise_cons] at distinct
  obtain ⟨notBelow, -, -, ⟨apartAfter, -⟩, apartBefore⟩ := distinct
  refine ⟨?_, fun d member other => apartBefore d member c List.mem_cons_self other hangs, fun d member other =>
    apartAfter d member hangs other⟩
  intro same
  rw [← same] at hangs
  exact notBelow (List.mem_flatMap.2 ⟨c, List.mem_append_right _ List.mem_cons_self, hangs⟩)

/-! ## Grafts -/

/-- `a'` goes on from `a` by nodes that stand for `leaf`: its own is a child of the place `q`, all others are below
new ones. -/
structure Grafts (a a' : Additions) (q : Nat) (leaf : Outline) : Prop where
  starts : a.list <+: a'.list
  children : ∀ i < a.list.length,
    placesBelow a'.list i = placesBelow a.list i ++ if i = q then [a.list.length] else []
  outline : a'.below? a.list.length = some leaf

namespace Grafts

variable {q i : Nat} {leaf o : Outline} (grafts : Grafts a a' q leaf)
include grafts

theorem getElem?_eq (bound : i < a.list.length) : a'.list[i]? = a.list[i]? := by
  obtain ⟨more, same⟩ := grafts.starts
  rw [← same, List.getElem?_append_left bound]

/-- From where the place `q` does not hang, the outline is as before. -/
theorem below?_of_notMem (bound : i < a.list.length) (apart : q ∉ a.span i) : a'.below? i = a.below? i := by
  induction i using a.number_induction with
  | step i ih =>
    rw [span_eq bound, List.mem_cons, not_or] at apart
    obtain ⟨other, below⟩ := apart
    rw [below?_eq, below?_eq, grafts.getElem?_eq bound, grafts.children i bound, if_neg (Ne.symm other),
      List.append_nil]
    congr 2
    funext b
    congr 1
    refine List.filterMap_congr fun c isChild => ih c isChild (lt_of_mem_placesBelow isChild).2 fun member => below ?_
    exact List.mem_flatMap.2 ⟨c, isChild, member⟩

/-- So are the outlines at children from which the place `q` does not hang. -/
theorem filterMap_below? {cs : List Nat} (areChildren : cs ⊆ placesBelow a.list i) (apart : ∀ c ∈ cs, q ∉ a.span c) :
    cs.filterMap a'.below? = cs.filterMap a.below? :=
  List.filterMap_congr fun c member =>
    grafts.below?_of_notMem (lt_of_mem_placesBelow (areChildren member)).2 (apart c member)

/-- Above the place `q` the outline has the leaf attached. -/
theorem below?_of_descend {folders : List Path} (found : descend? a.list folders i = some q)
    (here : a.below? i = some o) : a'.below? i = some (Outline.attach leaf folders o) := by
  have bound := lt_of_below? here
  induction folders generalizing i o with
  | nil =>
    cases found
    have distinct := a.nodup_span q
    rw [span_eq bound, List.nodup_cons, List.mem_flatMap] at distinct
    have apart : ∀ c ∈ placesBelow a.list q, q ∉ a.span c := by
      intro c isChild hangs
      exact distinct.1 ⟨c, isChild, hangs⟩
    rw [below?_eq, Option.map_eq_some_iff] at here
    obtain ⟨b, isNode, rfl⟩ := here
    rw [below?_eq, grafts.getElem?_eq bound, isNode, grafts.children q bound, if_pos rfl, List.filterMap_append,
      grafts.filterMap_below? (List.Subset.refl _) apart, List.filterMap_cons_some grafts.outline]
    rfl
  | cons folder folders ih =>
    obtain ⟨b, before, c, child, after, atPlace, places, rfl, isNode, others, isNext, found⟩ :=
      exists_next_of_descend found here
    have areChildren : before ++ c :: after ⊆ placesBelow a.list i := by
      rw [places]
      exact List.Subset.refl _
    rw [List.append_subset, List.cons_subset] at areChildren
    have below := lt_of_below? isNode
    obtain ⟨other, apartBefore, apartAfter⟩ := apart_of_mem_span bound places (mem_span_of_descend below found)
    rw [below?_eq, grafts.getElem?_eq bound, atPlace, grafts.children i bound, if_neg other, List.append_nil, places,
      List.filterMap_append, List.filterMap_cons_some (ih found isNode below),
      grafts.filterMap_below? areChildren.1 apartBefore, grafts.filterMap_below? areChildren.2.2 apartAfter,
      Option.map_some, Outline.attach, Outline.changeFirst_append_cons others isNext]

end Grafts

/-! ## Folders made beforehand -/

section Made

variable {above : List Path} {folder : Path} {i q : Nat} {o : Outline}

theorem isFolder_emptyFolder (folder : Path) :
    Outline.isFolder folder (.node (Outline.emptyFolder folder) []) = true := by
  simp [Outline.isFolder, Outline.emptyFolder, Outline.data, NodeData.plain, Path.same]

/-- To make a folder first changes nothing for what is attached below it. -/
theorem attach_attach_of_descend (found : descend? a.list above i = some q) (here : a.below? i = some o)
    (missing : ∀ c ∈ placesBelow a.list q, isFolderAt a.list folder c = false) (leaf : Outline) (more : List Path) :
    Outline.attach leaf (above ++ folder :: more)
        (Outline.attach (.node (Outline.emptyFolder folder) []) above o) =
      Outline.attach leaf (above ++ folder :: more) o := by
  induction above generalizing i o with
  | nil =>
    cases found
    rw [below?_eq, Option.map_eq_some_iff] at here
    obtain ⟨x, -, rfl⟩ := here
    have others : ∀ y ∈ (placesBelow a.list q).filterMap a.below?, Outline.isFolder folder y = false := by
      intro y member
      obtain ⟨c, isChild, isNode⟩ := List.mem_filterMap.1 member
      rw [isFolder_below? isNode, missing c isChild]
    simp only [List.nil_append, Outline.attach]
    rw [Outline.changeFirst_append_cons others (isFolder_emptyFolder folder), Outline.changeFirst_of_none others]
  | cons next above ih =>
    obtain ⟨b, before, c, child, after, -, -, rfl, isNode, others, isNext, found⟩ := exists_next_of_descend found here
    have isNext' :
        Outline.isFolder next (Outline.attach (.node (Outline.emptyFolder folder) []) above child) = true := by
      rwa [Outline.isFolder, Outline.data_attach]
    simp only [List.cons_append, Outline.attach]
    rw [Outline.changeFirst_append_cons others isNext, Outline.changeFirst_append_cons others isNext',
      Outline.changeFirst_append_cons others isNext, ih found isNode]

end Made

/-! ## Further nodes -/

/-- Further nodes, each below an earlier one. -/
def append (a : Additions) (more : List Addition)
    (earlier : ∀ k b, more[k]? = some b → ∀ p, b.parent = some p → p < a.list.length + k) : Additions where
  list := a.list ++ more
  parent_lt := by
    intro i b found p below
    rcases Nat.lt_or_ge i a.list.length with before | after
    · rw [List.getElem?_append_left before] at found
      exact a.parent_lt i b found p below
    · rw [List.getElem?_append_right after] at found
      have bound := earlier _ b found p below
      omega

/-- Nodes of which the first is below the place `q` and the others are below new ones. -/
theorem grafts_of_block {q : Nat} {data : NodeData} {rest : List Addition} {leaf : Outline}
    (list : a'.list = a.list ++ ⟨some q, data⟩ :: rest)
    (inner : ∀ b ∈ rest, ∃ p, b.parent = some p ∧ a.list.length ≤ p) (outline : a'.below? a.list.length = some leaf) :
    Grafts a a' q leaf where
  starts := ⟨_, list.symm⟩
  children := by
    intro i bound
    have noneBelow : placesIn (a.list.length + 1) rest i = [] := by
      refine List.eq_nil_iff_forall_not_mem.2 fun c member => ?_
      obtain ⟨k, b, found, below, -⟩ := exists_of_mem_placesIn member
      obtain ⟨p, parent, after⟩ := inner b (List.mem_of_getElem? found)
      obtain rfl : i = p := Option.some.inj (below.symm.trans parent)
      omega
    rw [list, placesBelow_append, placesIn_cons, noneBelow, List.append_nil]
    simp only [Option.some_inj, eq_comm]
  outline := outline

/-! ## Rows of nodes -/

section Rows

variable {α β : Type} {q : Nat} {data : NodeData} {rows : List α} {rowData : α → NodeData} {leaves : List β}
  {parent : β → Nat} {leafData : β → NodeData}

/-- What is found at the places of a list's members is found at the places of those that are kept. -/
theorem filterMap_places {f : Nat → Option Outline} {o : α → Outline} {n : Nat} (xs : List α) (kept : α → Bool)
    (shown : ∀ x i, (x, i) ∈ xs.zipIdx n → f i = some (o x)) :
    (((xs.zipIdx n).filter fun e => kept e.1).map (·.2)).filterMap f = (xs.filter kept).map o := by
  rw [List.filterMap_map]
  have same : ((xs.zipIdx n).filter fun e => kept e.1).filterMap (f ∘ (·.2)) =
      ((xs.zipIdx n).filter fun e => kept e.1).map fun e => o e.1 := by
    rw [← List.filterMap_eq_map]
    refine List.filterMap_congr fun e member => ?_
    exact shown e.1 e.2 (List.mem_filter.1 member).1
  have names : xs.filter kept = ((xs.zipIdx n).filter fun e => kept e.1).map (·.1) := by
    conv_lhs => rw [← List.zipIdx_map_fst n xs, List.filter_map]
    rfl
  rw [same, names, List.map_map]
  rfl

section Block

variable (list : a'.list = a.list ++ ⟨some q, data⟩ :: ((rows.map fun r => ⟨some a.list.length, rowData r⟩) ++
    leaves.map fun x => ⟨some (parent x), leafData x⟩)) (earlier : q < a.list.length)

include list earlier

/-- The rows are below the first of the new nodes, and the leaves where they were put. -/
theorem placesBelow_rows {i : Nat} (new : a.list.length ≤ i) : placesBelow a'.list i =
    (((rows.zipIdx (a.list.length + 1)).filter fun _ => decide (a.list.length = i)).map (·.2)) ++
      ((leaves.zipIdx (a.list.length + 1 + rows.length)).filter fun e => decide (parent e.1 = i)).map (·.2) := by
  rw [list, placesBelow_append, placesBelow_eq_nil new, placesIn_cons, if_neg, placesIn_append, placesIn_map,
    placesIn_map, List.length_map]
  · rfl
  · simp only [Option.some_inj]
    omega

variable (inner : ∀ x ∈ leaves, a.list.length ≤ parent x ∧ parent x ≤ a.list.length + rows.length)

include inner

theorem below?_leaf {x : β} {i : Nat} (member : (x, i) ∈ leaves.zipIdx (a.list.length + 1 + rows.length)) :
    a'.below? i = some (.node (leafData x) []) := by
  obtain ⟨after, found⟩ := List.mem_zipIdx_iff_le_and_getElem?_sub.1 member
  obtain ⟨k, rfl⟩ := Nat.exists_eq_add_of_le after
  have here : a'.list[a.list.length + 1 + rows.length + k]? = some ⟨some (parent x), leafData x⟩ := by
    have place : a.list.length + 1 + rows.length + k = a.list.length + (rows.length + k + 1) := by omega
    rw [Nat.add_sub_cancel_left] at found
    rw [list, place, List.getElem?_append_right (Nat.le_add_right _ _), Nat.add_sub_cancel_left,
      List.getElem?_cons_succ, List.getElem?_append_right (by simp), List.getElem?_map]
    simp [found]
  have childless : placesBelow a'.list (a.list.length + 1 + rows.length + k) = [] := by
    rw [placesBelow_rows list earlier (by omega), List.append_eq_nil_iff, List.map_eq_nil_iff, List.map_eq_nil_iff,
      List.filter_eq_nil_iff, List.filter_eq_nil_iff]
    refine ⟨fun r _ => by simp; omega, fun e member => ?_⟩
    have bounds := inner e.1 (List.fst_mem_of_mem_zipIdx member)
    simp
    omega
  rw [below?_eq, here, childless]
  rfl

theorem below?_row {r : α} {i : Nat} (member : (r, i) ∈ rows.zipIdx (a.list.length + 1)) : a'.below? i =
    some (.node (rowData r) ((leaves.filter fun x => parent x = i).map fun x => .node (leafData x) [])) := by
  obtain ⟨after, found⟩ := List.mem_zipIdx_iff_le_and_getElem?_sub.1 member
  obtain ⟨k, rfl⟩ := Nat.exists_eq_add_of_le after
  have here : a'.list[a.list.length + 1 + k]? = some ⟨some a.list.length, rowData r⟩ := by
    have place : a.list.length + 1 + k = a.list.length + (k + 1) := by omega
    rw [Nat.add_sub_cancel_left] at found
    have bound := (List.getElem?_eq_some_iff.1 found).1
    rw [list, place, List.getElem?_append_right (Nat.le_add_right _ _), Nat.add_sub_cancel_left,
      List.getElem?_cons_succ, List.getElem?_append_left (by simpa using bound), List.getElem?_map, found]
    rfl
  have noRow :
      (rows.zipIdx (a.list.length + 1)).filter (fun _ => decide (a.list.length = a.list.length + 1 + k)) = [] := by
    rw [List.filter_eq_nil_iff]
    intro e _
    simp
    omega
  rw [below?_eq, here, placesBelow_rows list earlier (by omega), noRow, List.map_nil, List.nil_append,
    filterMap_places leaves (fun x => parent x = a.list.length + 1 + k) fun _ _ => below?_leaf list earlier inner]
  rfl

/-- A node below `q`, rows below it, and leaves below it or below its rows. -/
theorem below?_rows : a'.below? a.list.length = some (.node data
    (((rows.zipIdx (a.list.length + 1)).map fun r =>
        .node (rowData r.1) ((leaves.filter fun x => parent x = r.2).map fun x => .node (leafData x) [])) ++
      (leaves.filter fun x => parent x = a.list.length).map fun x => .node (leafData x) [])) := by
  have here : a'.list[a.list.length]? = some ⟨some q, data⟩ := by
    rw [list, List.getElem?_append_right (Nat.le_refl _), Nat.sub_self, List.getElem?_cons_zero]
  have allRows : ((rows.zipIdx (a.list.length + 1)).map (·.2)).filterMap a'.below? =
      (rows.zipIdx (a.list.length + 1)).map fun r =>
        .node (rowData r.1) ((leaves.filter fun x => parent x = r.2).map fun x => .node (leafData x) []) := by
    rw [List.filterMap_map, ← List.filterMap_eq_map]
    exact List.filterMap_congr fun r member => below?_row list earlier inner member
  rw [below?_eq, here, placesBelow_rows list earlier (Nat.le_refl _), List.filterMap_append,
    List.filter_eq_self.2 (by simp), allRows,
    filterMap_places leaves (fun x => parent x = a.list.length) fun _ _ => below?_leaf list earlier inner]
  rfl

end Block

/-- Such nodes can be added, and none of them but the first is below an earlier one. -/
theorem exists_rows (a : Additions) (data : NodeData) (rows : List α) (rowData : α → NodeData) (leaves : List β)
    (parent : β → Nat) (leafData : β → NodeData) (earlier : q < a.list.length)
    (inner : ∀ x ∈ leaves, a.list.length ≤ parent x ∧ parent x ≤ a.list.length + rows.length) :
    ∃ a' : Additions, a'.list = a.list ++ ⟨some q, data⟩ :: ((rows.map fun r => ⟨some a.list.length, rowData r⟩) ++
        leaves.map fun x => ⟨some (parent x), leafData x⟩) ∧
      Grafts a a' q (.node data
        (((rows.zipIdx (a.list.length + 1)).map fun r =>
            .node (rowData r.1) ((leaves.filter fun x => parent x = r.2).map fun x => .node (leafData x) [])) ++
          (leaves.filter fun x => parent x = a.list.length).map fun x => .node (leafData x) [])) := by
  refine ⟨a.append _ ?_, rfl, grafts_of_block rfl ?_ (below?_rows rfl earlier inner)⟩
  · intro k b found p below
    cases k with
    | zero =>
      obtain rfl := Option.some.inj found
      obtain rfl := Option.some.inj below
      exact earlier
    | succ k =>
      rw [List.getElem?_cons_succ] at found
      rcases Nat.lt_or_ge k rows.length with isRow | isLeaf
      · rw [List.getElem?_append_left (by simpa using isRow), List.getElem?_map, Option.map_eq_some_iff] at found
        obtain ⟨r, -, rfl⟩ := found
        obtain rfl := Option.some.inj below
        omega
      · rw [List.getElem?_append_right (by simpa using isLeaf), List.getElem?_map, Option.map_eq_some_iff] at found
        obtain ⟨x, member, rfl⟩ := found
        obtain rfl := Option.some.inj below
        have bounds := inner x (List.mem_of_getElem? member)
        omega
  · intro b member
    rcases List.mem_append.1 member with isRow | isLeaf
    · obtain ⟨r, -, rfl⟩ := List.mem_map.1 isRow
      exact ⟨_, rfl, Nat.le_refl _⟩
    · obtain ⟨x, isMember, rfl⟩ := List.mem_map.1 isLeaf
      exact ⟨_, rfl, (inner x isMember).1⟩

/-- One node with nothing below it. -/
theorem exists_node (a : Additions) (data : NodeData) (earlier : q < a.list.length) :
    ∃ a' : Additions, a'.list = a.list ++ [⟨some q, data⟩] ∧ Grafts a a' q (.node data []) :=
  a.exists_rows data ([] : List Empty) Empty.elim ([] : List Empty) Empty.elim Empty.elim earlier nofun

end Rows

end Additions

end CobolAtlas
