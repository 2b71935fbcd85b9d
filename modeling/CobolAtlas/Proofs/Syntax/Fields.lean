/-
# CobolAtlas.Proofs.Syntax.Fields -- a data description has the fields of its own nodes

The reader of a tree goes through the nodes below a description and keeps the first level, name and picture that it
can read.  It does not enter descriptions inside, and not the nodes of fields either.  So a description is put together
from the fields among these nodes, one after another (`addAllFields_eq_foldl_fields`), and of each kind of field the
first one counts whose text can be read (`foldl_addField`).

The own nodes of a description are said without the reader: they are no descriptions, and neither a description nor a
field stands between (`Site.isOwn`).  The main statement is `ownEvents_description`: what is reported of a description is
read from the texts of its own nodes, and `SameBesideItems` says what may be done to the descriptions inside it, anywhere
and as often as one likes, without changing that.
-/
import CobolAtlas.Proofs.Syntax.Transfers

namespace CobolAtlas

set_option autoImplicit false

/-! ## Profiles without overlap in the fields -/

namespace Profile

/-- The kinds that are listed for a field. -/
def listed (p : Profile) : FieldRole → List Text
  | .dataItem => p.dataItem
  | .levelNumber => p.levelNumber
  | .dataName => p.dataName
  | .picture => p.picture

/-- Is the kind that of a description or of one of its fields? -/
def isFieldKind (p : Profile) (kind : Text) : Bool :=
  [FieldRole.dataItem, .levelNumber, .dataName, .picture].any fun role => (p.listed role).contains kind

/-- No kind is listed in two places, neither for two roles nor for a role and a field. -/
def IsUnambiguous (p : Profile) : Prop :=
  (p.kinds ++ [p.levelNumber, p.dataName, p.picture]).Pairwise fun l m => ∀ kind ∈ l, kind ∉ m

instance (p : Profile) : Decidable p.IsUnambiguous :=
  inferInstanceAs (Decidable ((p.kinds ++ [p.levelNumber, p.dataName, p.picture]).Pairwise _))

variable {p : Profile} {kind : Text} {role : FieldRole}

theorem IsUnambiguous.isSeparate (unambiguous : p.IsUnambiguous) : p.IsSeparate :=
  (List.pairwise_append.1 unambiguous).1

theorem IsUnambiguous.fields (unambiguous : p.IsUnambiguous) :
    [p.dataItem, p.levelNumber, p.dataName, p.picture].Pairwise fun l m => ∀ kind ∈ l, kind ∉ m := by
  obtain ⟨-, fields, across⟩ := List.pairwise_append.1 unambiguous
  have item : p.dataItem ∈ p.kinds := by simp [kinds]
  exact List.pairwise_cons.2 ⟨across p.dataItem item, fields⟩

theorem isSome_field? (p : Profile) (kind : Text) : (p.field? kind).isSome = p.isFieldKind kind := by
  simp only [field?, isFieldKind, listed, List.any_cons, List.any_nil, Bool.or_false]
  cases p.dataItem.contains kind <;> cases p.levelNumber.contains kind <;> cases p.dataName.contains kind <;>
    cases p.picture.contains kind <;> rfl

theorem listed_of_field? (found : p.field? kind = some role) : kind ∈ p.listed role := by
  unfold field? at found
  repeat (split at found; · cases found; exact List.contains_iff_mem.1 ‹_›)
  cases found

theorem field?_of_listed (unambiguous : p.IsUnambiguous) (listed : kind ∈ p.listed role) :
    p.field? kind = some role := by
  have separate := unambiguous.fields
  simp only [List.pairwise_cons, List.mem_cons, List.not_mem_nil, or_false, forall_eq_or_imp, forall_eq] at separate
  obtain ⟨⟨itemLevel, itemName, itemPicture⟩, ⟨levelName, levelPicture⟩, namePicture, -⟩ := separate
  -- the lists that are tried before the one that the kind is in do not have it
  cases role with
  | dataItem =>
    have item : kind ∈ p.dataItem := listed
    simp [field?, item]
  | levelNumber =>
    have level : kind ∈ p.levelNumber := listed
    have notItem : kind ∉ p.dataItem := fun item => itemLevel kind item level
    simp [field?, level, notItem]
  | dataName =>
    have name : kind ∈ p.dataName := listed
    have notItem : kind ∉ p.dataItem := fun item => itemName kind item name
    have notLevel : kind ∉ p.levelNumber := fun level => levelName kind level name
    simp [field?, name, notItem, notLevel]
  | picture =>
    have picture : kind ∈ p.picture := listed
    have notItem : kind ∉ p.dataItem := fun item => itemPicture kind item picture
    have notLevel : kind ∉ p.levelNumber := fun level => levelPicture kind level picture
    have notName : kind ∉ p.dataName := fun name => namePicture kind name picture
    simp [field?, picture, notItem, notLevel, notName]

/-- A kind has the role of the list that it is in. -/
theorem field?_eq_some_iff (unambiguous : p.IsUnambiguous) : p.field? kind = some role ↔ kind ∈ p.listed role :=
  ⟨listed_of_field?, field?_of_listed unambiguous⟩

end Profile

namespace Node

/-! ## The fields of a description -/

mutual

/-- The fields that a node below a description holds, in document order: itself if it is one, nothing if it is another
description, and else what its children hold. -/
def fields (profile : Profile) : Node → List Node
  | mk kind text startLine endLine isError children =>
      match profile.field? kind with
      | some .dataItem => []
      | some _ => [mk kind text startLine endLine isError children]
      | none => allFields profile children

/-- The fields that nodes below a description hold. -/
def allFields (profile : Profile) : List Node → List Node
  | [] => []
  | node :: nodes => fields profile node ++ allFields profile nodes

end

/-- What a field adds to a description. -/
def addField (profile : Profile) (f : DataFields) (field : Node) : DataFields :=
  match profile.field? field.kind with
  | some .levelNumber => f.addLevel field.text
  | some .dataName => f.addName field.text
  | some .picture => f.addPicture field.text
  | _ => f

variable {profile : Profile}

mutual

theorem addFields_eq_foldl_fields (f : DataFields) :
    ∀ node : Node, addFields profile f node = (node.fields profile).foldl (addField profile) f
  | mk kind text startLine endLine isError children => by
      rw [addFields, fields]
      cases role : profile.field? kind with
      | none => exact addAllFields_eq_foldl_fields f children
      | some field => cases field <;> simp [addField, Node.kind, Node.text, role]

/-- A description is put together from its fields alone, one after another. -/
theorem addAllFields_eq_foldl_fields (f : DataFields) :
    ∀ nodes : List Node, addAllFields profile f nodes = (allFields profile nodes).foldl (addField profile) f
  | [] => rfl
  | node :: nodes => by
      rw [addAllFields, allFields, List.foldl_append, addFields_eq_foldl_fields f node]
      exact addAllFields_eq_foldl_fields _ nodes

end

theorem allFields_eq (nodes : List Node) : allFields profile nodes = nodes.flatMap (fields profile) := by
  induction nodes with
  | nil => rfl
  | cons node nodes ih => rw [allFields, ih, List.flatMap_cons]

theorem fields_eq (node : Node) :
    node.fields profile =
      match profile.field? node.kind with
      | some .dataItem => []
      | some _ => [node]
      | none => node.children.flatMap (fields profile) := by
  obtain ⟨kind, text, startLine, endLine, isError, children⟩ := node
  rw [fields, allFields_eq]
  rfl

/-- The texts of the nodes that are one kind of field. -/
def textsOf (profile : Profile) (role : FieldRole) (nodes : List Node) : List Text :=
  (nodes.filter fun node => profile.field? node.kind == some role).map Node.text

theorem textsOf_cons_of_eq {role : FieldRole} {node : Node} (plays : profile.field? node.kind = some role)
    (nodes : List Node) : textsOf profile role (node :: nodes) = node.text :: textsOf profile role nodes := by
  simp [textsOf, plays]

theorem textsOf_cons_of_ne {role : FieldRole} {node : Node} (other : profile.field? node.kind ≠ some role)
    (nodes : List Node) : textsOf profile role (node :: nodes) = textsOf profile role nodes := by
  simp [textsOf, other]

theorem or_findSome?_cons {α β : Type} (read : α → Option β) (a : α) (rest : List α) (kept : Option β) :
    (kept.or (read a)).or (rest.findSome? read) = kept.or ((a :: rest).findSome? read) := by
  rw [Option.or_assoc, List.findSome?_cons]
  cases read a <;> rfl

/-- Of each kind of field the first counts that can be read, unless one was found before. -/
theorem foldl_addField (f : DataFields) (nodes : List Node) :
    nodes.foldl (addField profile) f =
      { level := f.level.or ((textsOf profile .levelNumber nodes).findSome? fun text => Text.unsigned? (Text.trim text))
        name := f.name.or ((textsOf profile .dataName nodes).head?.map Name.clean)
        picture := f.picture.or ((textsOf profile .picture nodes).findSome? Source.picture?) } := by
  induction nodes generalizing f with
  | nil => simp [textsOf]
  | cons node nodes ih =>
    rw [List.foldl_cons, ih, addField]
    cases role : profile.field? node.kind with
    | none => simp [textsOf_cons_of_ne, role]
    | some here =>
      cases here with
      | dataItem => simp [textsOf_cons_of_ne, role]
      | levelNumber =>
        simp only [textsOf_cons_of_eq role, textsOf_cons_of_ne, role, DataFields.addLevel, ne_eq, Option.some.injEq,
          reduceCtorEq, not_false_eq_true]
        rw [or_findSome?_cons fun text => Text.unsigned? (Text.trim text)]
      | dataName =>
        simp only [textsOf_cons_of_eq role, textsOf_cons_of_ne, role, DataFields.addName, ne_eq, Option.some.injEq,
          reduceCtorEq, not_false_eq_true, Option.or_assoc, Option.some_or, List.head?_cons, Option.map_some]
      | picture =>
        simp only [textsOf_cons_of_eq role, textsOf_cons_of_ne, role, DataFields.addPicture, ne_eq, Option.some.injEq,
          reduceCtorEq, not_false_eq_true]
        rw [or_findSome?_cons]

/-! ## Own nodes -/

/-- Is the node below a description one of its own?  It is no description, and neither a description nor a field stands
between. -/
def Site.isOwn (profile : Profile) (s : Site) : Bool :=
  s.isOpen profile.isFieldKind && !profile.dataItem.contains s.node.kind

/-- The own nodes of a description, in document order. -/
def ownNodes (profile : Profile) (node : Node) : List Node :=
  ((allSitesBelow [] node.children).filter (Site.isOwn profile)).map Site.node

/-- The texts of the own nodes that are listed for a field. -/
def ownTexts (profile : Profile) (role : FieldRole) (node : Node) : List Text :=
  ((node.ownNodes profile).filter fun own => (profile.listed role).contains own.kind).map Node.text

/-- Is the node a field of the description it stands below? -/
def isField (profile : Profile) (node : Node) : Bool :=
  profile.isFieldKind node.kind && !(profile.field? node.kind == some .dataItem)

/-- The fields below a node are those among the nodes that no description and no field cuts off. -/
theorem fields_eq_sites (node : Node) {above : List Text} (isOpen : above.all (!profile.isFieldKind ·) = true) :
    node.fields profile =
      (((sitesBelow above node).filter (Site.isOpen profile.isFieldKind)).map Site.node).filter (isField profile) := by
  induction node using induction generalizing above with
  | step node ih =>
    have cut := profile.isSome_field? node.kind
    rw [filter_isOpen_eq _ node isOpen, fields_eq, List.map_cons, List.filter_cons, isField, ← cut]
    cases role : profile.field? node.kind with
    | none =>
      have below : (node.kind :: above).all (!profile.isFieldKind ·) = true := by
        rw [List.all_cons, ← cut, role, isOpen]
        rfl
      simp only [Option.isSome_none, Bool.false_and, Bool.false_eq_true, if_false, List.map_flatMap, List.filter_flatMap]
      exact List.flatMap_congr fun child member => ih child member below
    | some here => cases here <;> rfl

theorem allFields_eq_sites (nodes : List Node) :
    allFields profile nodes =
      (((allSitesBelow [] nodes).filter (Site.isOpen profile.isFieldKind)).map Site.node).filter (isField profile) := by
  rw [allFields_eq, allSitesBelow_eq, List.filter_flatMap, List.map_flatMap, List.filter_flatMap]
  exact List.flatMap_congr fun node _ => fields_eq_sites node rfl

/-- The texts of the fields are those of the own nodes. -/
theorem textsOf_allFields (unambiguous : profile.IsUnambiguous) {role : FieldRole} (notDescription : role ≠ .dataItem)
    (node : Node) : textsOf profile role (allFields profile node.children) = node.ownTexts profile role := by
  have inList (kind : Text) (role : FieldRole) :
      (profile.field? kind == some role) = (profile.listed role).contains kind := by
    rw [Bool.eq_iff_iff, beq_iff_eq, List.contains_iff_mem]
    exact Profile.field?_eq_some_iff unambiguous
  rw [textsOf, ownTexts, ownNodes, allFields_eq_sites, List.filter_map, List.filter_map, List.filter_map,
    List.filter_filter, List.filter_filter, List.filter_filter]
  congr 2
  refine List.filter_congr fun s _ => ?_
  simp only [Function.comp_apply, Site.isOwn, isField, ← inList]
  by_cases plays : profile.field? s.node.kind = some role
  · have isKind : profile.isFieldKind s.node.kind = true := by
      rw [← Profile.isSome_field?, plays]
      rfl
    have notItem : (profile.field? s.node.kind == some .dataItem) = false := by simp [plays, notDescription]
    have notListed : profile.dataItem.contains s.node.kind = false := by
      rw [← notItem]
      exact (inList s.node.kind .dataItem).symm
    simp only [isKind, notItem, notListed, Bool.not_false, Bool.and_true]
  · have otherwise : (profile.field? s.node.kind == some role) = false := by simp [plays]
    simp only [otherwise, Bool.false_and]

/-! ## Descriptions inside -/

/-- Lists of nodes that are the same but for descriptions.  Anywhere in them descriptions with all that is below them may
be put in, left out or exchanged, and so the nodes around them may have another text and other lines.  The fields have
their text. -/
inductive SameBesideItems (profile : Profile) : List Node → List Node → Prop where
  | nil : SameBesideItems profile [] []
  | removed {item : Node} {nodes nodes' : List Node} (isItem : item.kind ∈ profile.dataItem)
      (rest : SameBesideItems profile nodes nodes') : SameBesideItems profile (item :: nodes) nodes'
  | added {item : Node} {nodes nodes' : List Node} (isItem : item.kind ∈ profile.dataItem)
      (rest : SameBesideItems profile nodes nodes') : SameBesideItems profile nodes (item :: nodes')
  | kept {node node' : Node} {nodes nodes' : List Node} (kind : node'.kind = node.kind)
      (text : ∀ kinds ∈ [profile.levelNumber, profile.dataName, profile.picture],
        node.kind ∈ kinds → node'.text = node.text)
      (below : SameBesideItems profile node.children node'.children)
      (rest : SameBesideItems profile nodes nodes') : SameBesideItems profile (node :: nodes) (node' :: nodes')

theorem addFields_eq (f : DataFields) (node : Node) :
    node.addFields profile f =
      match profile.field? node.kind with
      | none => addAllFields profile f node.children
      | some _ => addField profile f node := by
  obtain ⟨kind, text, startLine, endLine, isError, children⟩ := node
  rw [addFields, addField]
  show _ = match profile.field? kind with
    | none => addAllFields profile f children
    | some _ => _
  cases role : profile.field? kind with
  | none => rfl
  | some field => cases field <;> simp [Node.kind, Node.text, role]

/-- A description adds nothing to the one it stands in. -/
theorem addFields_item {item : Node} (isItem : item.kind ∈ profile.dataItem) (f : DataFields) :
    item.addFields profile f = f := by
  have role : profile.field? item.kind = some .dataItem := by simp [Profile.field?, isItem]
  rw [addFields_eq, role, addField, role]

theorem SameBesideItems.addAllFields {nodes nodes' : List Node} (same : SameBesideItems profile nodes nodes')
    (f : DataFields) : addAllFields profile f nodes' = addAllFields profile f nodes := by
  induction same generalizing f with
  | nil => rfl
  | removed isItem rest ih =>
    rw [Node.addAllFields, addFields_item isItem, ih]
  | added isItem rest ih =>
    rw [Node.addAllFields, addFields_item isItem, ih]
  | @kept node node' nodes nodes' kind text below rest ihBelow ihRest =>
    have here : node'.addFields profile f = node.addFields profile f := by
      rw [addFields_eq, addFields_eq, kind]
      cases role : profile.field? node.kind with
      | none => exact ihBelow f
      | some field =>
        have listed := Profile.listed_of_field? role
        simp only [addField, kind, role]
        cases field with
        | dataItem => rfl
        | levelNumber => simp only [text profile.levelNumber (by simp) listed]
        | dataName => simp only [text profile.dataName (by simp) listed]
        | picture => simp only [text profile.picture (by simp) listed]
    rw [Node.addAllFields, Node.addAllFields, here, ihRest]

/-! ## What is reported of a description -/

/-- **A description has the fields of its own nodes.**  Its level is the first, in document order, among the texts of
its own level numbers that reads as a number, and without one nothing is reported.  Its name is the first among the
texts of its own names, cleaned, and else FILLER; its picture the first that is found in the texts of its own pictures.
Nothing that is done to the descriptions inside it changes what is reported. -/
theorem ownEvents_description (unambiguous : profile.IsUnambiguous) {node : Node}
    (isItem : node.kind ∈ profile.dataItem) :
    node.ownEvents profile =
        (((node.ownTexts profile .levelNumber).findSome? fun text => Text.unsigned? (Text.trim text)).map fun level =>
          Event.dataItem
            { level := level
              name := ((node.ownTexts profile .dataName).head?.map Name.clean).getD "FILLER".toList
              picture := (node.ownTexts profile .picture).findSome? Source.picture?
              line := node.startLine }).toList ∧
      ∀ node' : Node, node'.kind = node.kind → node'.startLine = node.startLine →
        SameBesideItems profile node.children node'.children → node'.ownEvents profile = node.ownEvents profile := by
  have role : profile.role? node.kind = some .dataItem := Profile.role?_of_lists unambiguous.isSeparate isItem
  have own : node.ownEvents profile = ((node.dataItem? profile).map Event.dataItem).toList := by
    rw [ownEvents, role]
  refine ⟨?_, ?_⟩
  · rw [own, dataItem?, addAllFields_eq_foldl_fields, foldl_addField, textsOf_allFields unambiguous (by simp),
      textsOf_allFields unambiguous (by simp), textsOf_allFields unambiguous (by simp)]
    simp only [DataFields.none, Option.none_or, DataFields.item?, Option.map_map]
    rfl
  · intro node' kind line same
    rw [own, ownEvents, kind, role, dataItem?, dataItem?, line, same.addAllFields]

/-- A profile with kinds of one letter. -/
def letters : Profile where
  programName := [['i']]
  divisions := [(['v'], "DATA".toList)]
  dataSections := [(['w'], "LINKAGE".toList)]
  dataItem := [['d'], ['k']]
  levelNumber := [['l']]
  dataName := [['n']]
  picture := [['p']]
  sectionHeader := [['s']]
  paragraphHeader := [['h']]
  call := [['c']]
  perform := [['r']]
  goTo := [['g']]

/-- A description with a level and a picture that cannot be read before those that can, and with `inner` between the
levels. -/
def total (inner : List Node) : Node :=
  mk ['d'] "0X 05 TOTAL. PIC, PIC 9(4).".toList 7 9 false
    [mk ['e'] "0X 05".toList 7 8 false
        (mk ['l'] "0X".toList 7 7 false [] :: (inner ++ [mk ['l'] " 05 ".toList 8 8 false []])),
      mk ['n'] "TOTAL.".toList 8 8 false [],
      mk ['p'] "PIC,".toList 8 8 false [],
      mk ['p'] "PIC 9(4).".toList 9 9 false []]

/-- A description that stands inside another. -/
def subtotal : Node :=
  mk ['k'] "88 SUBTOTAL PIC 9.".toList 8 8 false
    [mk ['l'] "88".toList 8 8 false [], mk ['n'] "SUBTOTAL".toList 8 8 false [], mk ['p'] "PIC 9.".toList 8 8 false []]

/-- The description is the same with another one inside it and without. -/
theorem ownEvents_description_total :
    letters.IsUnambiguous ∧ (total [subtotal]).kind ∈ letters.dataItem ∧
      (total [subtotal]).ownEvents letters = [.dataItem ⟨5, "TOTAL".toList, some "9(4)".toList, 7⟩] ∧
      SameBesideItems letters (total [subtotal]).children (total []).children ∧
      (total []).ownEvents letters = (total [subtotal]).ownEvents letters := by
  have unambiguous : letters.IsUnambiguous := by decide
  have isItem : (total [subtotal]).kind ∈ letters.dataItem := by decide
  obtain ⟨own, beside⟩ := ownEvents_description unambiguous isItem
  have level : (((total [subtotal]).ownTexts letters .levelNumber).findSome? fun text =>
      Text.unsigned? (Text.trim text)) = some 5 := by decide +kernel
  have name : ((total [subtotal]).ownTexts letters .dataName).head?.map Name.clean = some "TOTAL".toList := by
    decide +kernel
  have picture : ((total [subtotal]).ownTexts letters .picture).findSome? Source.picture? = some "9(4)".toList := by
    decide +kernel
  rw [level, name, picture] at own
  have leaf (node : Node) {nodes nodes' : List Node} (isLeaf : node.children = [])
      (rest : SameBesideItems letters nodes nodes') : SameBesideItems letters (node :: nodes) (node :: nodes') := by
    refine .kept rfl (fun _ _ _ => rfl) ?_ rest
    rw [isLeaf]
    exact .nil
  have isInner : subtotal.kind ∈ letters.dataItem := by decide
  have without : SameBesideItems letters (total [subtotal]).children (total []).children := by
    refine .kept (Eq.refl ['e']) (fun _ _ _ => Eq.refl "0X 05".toList) ?_
      (leaf _ rfl (leaf _ rfl (leaf _ rfl .nil)))
    exact leaf _ rfl (.removed isInner (leaf _ rfl .nil))
  exact ⟨unambiguous, isItem, own, without, beside (total []) (Eq.refl ['d']) (Eq.refl 7) without⟩

end Node

end CobolAtlas
