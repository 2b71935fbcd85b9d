/-
# CobolAtlas.Proofs.Syntax.Wrapping -- nodes that a visit looks through

A grammar may put nodes of kinds that the profile does not know between the nodes that it knows.  `Wraps` says that
one tree is another with such a node more: around the whole tree, or around a run of siblings anywhere in it, inside
statements, headers and data descriptions as well.

What a list of nodes is to the reader of a tree is what the visits of the nodes report and count, what they add to a
data description, and whether there are any, for a node without children is a leaf (`SameReading`).  A run of nodes
and the node around it are the same in this (`sameReading_wrapper`), and lists that are the same can stand for each
other among the children of a node (`SameReading.inside`).  So the tree is read as before (`events_of_wraps`).
-/
import CobolAtlas.Proofs.Syntax.Transfers

namespace CobolAtlas

set_option autoImplicit false

namespace Profile

variable {p : Profile} {kind : Text}

/-- The kind is listed nowhere, neither for a role nor for a field of a data description. -/
def Unlisted (p : Profile) (kind : Text) : Prop :=
  ∀ kinds ∈ p.kinds ++ [p.levelNumber, p.dataName, p.picture], kind ∉ kinds

instance (p : Profile) (kind : Text) : Decidable (p.Unlisted kind) :=
  inferInstanceAs (Decidable (∀ kinds ∈ p.kinds ++ [p.levelNumber, p.dataName, p.picture], kind ∉ kinds))

theorem Unlisted.role? (unlisted : p.Unlisted kind) : p.role? kind = none := by
  cases found : p.role? kind with
  | none => rfl
  | some role =>
    obtain ⟨kinds, place, member⟩ := (lists_of_role? found).place
    exact absurd member (unlisted kinds (List.mem_append_left _ (List.mem_of_getElem? place)))

theorem Unlisted.field? (unlisted : p.Unlisted kind) : p.field? kind = none := by
  have item : kind ∉ p.dataItem := unlisted _ (by simp [kinds])
  have level : kind ∉ p.levelNumber := unlisted _ (by simp)
  have name : kind ∉ p.dataName := unlisted _ (by simp)
  have picture : kind ∉ p.picture := unlisted _ (by simp)
  simp [Profile.field?, item, level, name, picture]

end Profile

namespace Node

variable {profile : Profile}

/-! ## Lists of nodes that are read alike -/

theorem allEvents_append (nodes more : List Node) :
    allEvents profile (nodes ++ more) = allEvents profile nodes ++ allEvents profile more := by
  rw [allEvents_eq, allEvents_eq, allEvents_eq, List.flatMap_append]

theorem allErrorCount_append (nodes more : List Node) :
    allErrorCount profile (nodes ++ more) = allErrorCount profile nodes + allErrorCount profile more := by
  induction nodes with
  | nil => rw [List.nil_append, allErrorCount, Nat.zero_add]
  | cons node nodes ih => rw [List.cons_append, allErrorCount, allErrorCount, ih, Nat.add_assoc]

theorem addAllFields_append (f : DataFields) (nodes more : List Node) :
    addAllFields profile f (nodes ++ more) = addAllFields profile (addAllFields profile f nodes) more := by
  induction nodes generalizing f with
  | nil => rfl
  | cons node nodes ih => exact ih (addFields profile f node)

/-- The reader of a tree finds the same in either list of nodes. -/
structure SameReading (profile : Profile) (nodes nodes' : List Node) : Prop where
  events : allEvents profile nodes' = allEvents profile nodes
  errors : allErrorCount profile nodes' = allErrorCount profile nodes
  fields : ∀ f, addAllFields profile f nodes' = addAllFields profile f nodes
  isEmpty : nodes'.isEmpty = nodes.isEmpty

section

variable {nodes nodes' : List Node}

/-- Between the same siblings. -/
theorem SameReading.among (same : SameReading profile nodes nodes') (before after : List Node) :
    SameReading profile (before ++ nodes ++ after) (before ++ nodes' ++ after) where
  events := by simp only [allEvents_append, same.events]
  errors := by simp only [allErrorCount_append, same.errors]
  fields := fun f => by simp only [addAllFields_append, same.fields]
  isEmpty := by
    rw [Bool.eq_iff_iff]
    have same := Bool.eq_iff_iff.1 same.isEmpty
    simp only [List.isEmpty_iff] at same
    simp only [List.isEmpty_iff, List.append_eq_nil_iff, same]

/-- What a node reports of itself depends on its children only through what they add to a description. -/
theorem ownEvents_children (same : SameReading profile nodes nodes') (kind text : Text)
    (startLine endLine : LineNumber) (isError : Bool) :
    ownEvents profile (mk kind text startLine endLine isError nodes') =
      ownEvents profile (mk kind text startLine endLine isError nodes) := by
  have item : dataItem? profile (mk kind text startLine endLine isError nodes') =
      dataItem? profile (mk kind text startLine endLine isError nodes) :=
    congrArg (DataFields.item? startLine) (same.fields .none)
  rw [ownEvents, ownEvents, item]
  rfl

/-- Below a node. -/
theorem SameReading.inside (same : SameReading profile nodes nodes') (kind text : Text)
    (startLine endLine : LineNumber) (isError : Bool) :
    SameReading profile [Node.mk kind text startLine endLine isError nodes]
      [Node.mk kind text startLine endLine isError nodes'] where
  events := by
    simp only [allEvents, Node.events, ownEvents_children same, same.isEmpty, same.events]
  errors := by
    simp only [allErrorCount, errorCount, same.errors]
  fields := fun f => by
    simp only [addAllFields, addFields, same.fields]
  isEmpty := rfl

end

/-- Nodes of which there is at least one, and a node of an unlisted kind around them. -/
theorem sameReading_wrapper {kind : Text} (unlisted : profile.Unlisted kind) {run : List Node} (nonempty : run ≠ [])
    (text : Text) (startLine endLine : LineNumber) :
    SameReading profile run [mk kind text startLine endLine false run] where
  events := by
    have isOpen : isClosed profile kind = false := by simp only [isClosed, unlisted.role?]
    have silent : ownEvents profile (mk kind text startLine endLine false run) = [] := by
      simp only [ownEvents, Node.kind, unlisted.role?]
    have inner : run.isEmpty = false := by simpa using nonempty
    simp [allEvents, Node.events, silent, isOpen, inner]
  errors := by
    have isOpen : isClosed profile kind = false := by simp only [isClosed, unlisted.role?]
    simp [allErrorCount, errorCount, isOpen]
  fields := fun f => by
    simp only [addAllFields, addFields, unlisted.field?]
  isEmpty := by simpa using nonempty

/-! ## A node more -/

/-- The second tree is the first with one node more, which is no error and of an unlisted kind. -/
inductive Wraps (profile : Profile) : Node → Node → Prop where
  /-- The new node stands around the whole tree. -/
  | whole {kind : Text} (unlisted : profile.Unlisted kind) (text : Text) (startLine endLine : LineNumber)
      (tree : Node) : Wraps profile tree (mk kind text startLine endLine false [tree])
  /-- The new node stands around a run of siblings, in the place of the run. -/
  | siblings {kind : Text} (unlisted : profile.Unlisted kind) (text : Text) (startLine endLine : LineNumber)
      {run : List Node} (nonempty : run ≠ []) (before after : List Node) (parentKind parentText : Text)
      (parentStart parentEnd : LineNumber) (parentIsError : Bool) :
      Wraps profile
        (mk parentKind parentText parentStart parentEnd parentIsError (before ++ run ++ after))
        (mk parentKind parentText parentStart parentEnd parentIsError
          (before ++ [mk kind text startLine endLine false run] ++ after))
  /-- The new node stands somewhere below a child of the root. -/
  | deeper {child child' : Node} (wraps : Wraps profile child child') (before after : List Node) (kind text : Text)
      (startLine endLine : LineNumber) (isError : Bool) :
      Wraps profile (mk kind text startLine endLine isError (before ++ [child] ++ after))
        (mk kind text startLine endLine isError (before ++ [child'] ++ after))

theorem Wraps.sameReading {tree tree' : Node} (wraps : Wraps profile tree tree') :
    SameReading profile [tree] [tree'] := by
  induction wraps with
  | whole unlisted text startLine endLine tree =>
    exact sameReading_wrapper unlisted (List.cons_ne_nil tree []) text startLine endLine
  | siblings unlisted text startLine endLine nonempty before after =>
    have run := sameReading_wrapper unlisted nonempty text startLine endLine
    exact (run.among before after).inside _ _ _ _ _
  | deeper _ before after kind text startLine endLine isError ih =>
    exact (ih.among before after).inside kind text startLine endLine isError

/-- **Unlisted nodes are looked through.**  A node of an unlisted kind that is put around a whole tree or around a
run of siblings anywhere in it changes neither what the visit reports, and so no program that is put together from
it, nor the count of errors. -/
theorem events_of_wraps {tree tree' : Node} (wraps : Wraps profile tree tree') :
    tree'.events profile = tree.events profile ∧
      tree'.errorCount profile = tree.errorCount profile ∧
      ∀ path backend, Program.ofTree profile path backend tree' = Program.ofTree profile path backend tree := by
  have same := wraps.sameReading
  have events : tree'.events profile = tree.events profile := by
    simpa only [allEvents, List.append_nil] using same.events
  have errors : tree'.errorCount profile = tree.errorCount profile := by
    simpa only [allErrorCount, Nat.add_zero] using same.errors
  refine ⟨events, errors, fun path backend => ?_⟩
  rw [Program.ofTree, events, errors, Program.ofTree]

/-- A division around a data description. -/
def describing (fields : List Node) : Node :=
  mk "data_division".toList [] 1 3 false
    [mk "working_storage_section".toList [] 2 3 false
      ([] ++ [mk "data_description".toList "05 TOTAL PIC 9(4).".toList 3 3 false fields] ++
        [mk ".".toList ".".toList 3 3 false []])]

def levelField : Node := mk "level_number".toList "05".toList 3 3 false []
def nameField : Node := mk "entry_name".toList "TOTAL".toList 3 3 false []
def pictureField : Node := mk "picture_clause".toList "PIC 9(4)".toList 3 3 false []

/-- The level and the name of a description stand in a node of their own. -/
theorem events_of_wraps_description :
    let bare := describing ([] ++ [levelField, nameField] ++ [pictureField])
    let wrapped := describing ([] ++ [mk "entry".toList [] 9 9 false [levelField, nameField]] ++ [pictureField])
    Wraps Profile.standard bare wrapped ∧ wrapped.events Profile.standard = bare.events Profile.standard ∧
      wrapped.errorCount Profile.standard = 0 ∧
      (Program.ofTree Profile.standard ⟨"/src/total.cbl".toList⟩ [] wrapped).dataSections =
        [⟨"WORKING-STORAGE".toList, [⟨5, "TOTAL".toList, some "9(4)".toList, 3⟩]⟩] := by
  intro bare wrapped
  have unlisted : Profile.standard.Unlisted "entry".toList := by decide
  have description := Wraps.siblings unlisted [] 9 9 (List.cons_ne_nil levelField [nameField]) [] [pictureField]
    "data_description".toList "05 TOTAL PIC 9(4).".toList 3 3 false
  have wraps : Wraps Profile.standard bare wrapped :=
    .deeper (.deeper description [] _ _ _ _ _ _) [] [] _ _ _ _ _
  obtain ⟨events, errors, programs⟩ := events_of_wraps wraps
  refine ⟨wraps, events, errors.trans (by decide +kernel), ?_⟩
  rw [programs]
  decide +kernel

end Node

end CobolAtlas
