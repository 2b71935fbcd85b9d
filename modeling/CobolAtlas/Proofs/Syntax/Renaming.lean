/-
# CobolAtlas.Proofs.Syntax.Renaming -- kinds are known through the profile alone

A grammar may call its kinds something else.  `Node.mapKinds` renames the kinds of a tree, `Profile.mapKinds` those
that a profile lists; the names of divisions and data sections that a profile records stay as they are.

The reader of a tree asks the profile for the role of a kind and for the field it fills, and nothing else about it.  So
two trees of one shape are read alike under profiles that answer alike, kind by kind (`events_of_agrees`).  A renaming
that keeps kinds apart leaves the answers as they were (`agrees_mapKinds`), and with them the program and its errors
(`ofTree_mapKinds`).
-/
import CobolAtlas.Proofs.Syntax.Visit
import Mathlib.Logic.Equiv.Basic

namespace CobolAtlas

set_option autoImplicit false

/-! ## Profiles -/

namespace Profile

/-- The profile of a grammar whose kinds have other names. -/
def mapKinds (rename : Text → Text) (p : Profile) : Profile where
  programName := p.programName.map rename
  divisions := p.divisions.map (Prod.map rename id)
  dataSections := p.dataSections.map (Prod.map rename id)
  dataItem := p.dataItem.map rename
  levelNumber := p.levelNumber.map rename
  dataName := p.dataName.map rename
  picture := p.picture.map rename
  sectionHeader := p.sectionHeader.map rename
  paragraphHeader := p.paragraphHeader.map rename
  call := p.call.map rename
  perform := p.perform.map rename
  goTo := p.goTo.map rename

/-- The second profile answers for the new name of a kind as the first does for the kind. -/
structure Agrees (rename : Text → Text) (p p' : Profile) : Prop where
  role? : ∀ kind, p'.role? (rename kind) = p.role? kind
  field? : ∀ kind, p'.field? (rename kind) = p.field? kind

section Renamed

variable {rename : Text → Text} (apart : Function.Injective rename)

include apart

theorem contains_map_rename (kinds : List Text) (kind : Text) :
    (kinds.map rename).contains (rename kind) = kinds.contains kind := by
  rw [Bool.eq_iff_iff, List.contains_iff_mem, List.contains_iff_mem]
  exact List.mem_map_of_injective apart

theorem lookup_map_rename (pairs : List (Text × Text)) (kind : Text) :
    (pairs.map (Prod.map rename id)).lookup (rename kind) = pairs.lookup kind := by
  induction pairs with
  | nil => rfl
  | cons pair pairs ih =>
    obtain ⟨other, name⟩ := pair
    have same : (rename kind == rename other) = (kind == other) := by
      rw [Bool.eq_iff_iff, beq_iff_eq, beq_iff_eq]
      exact apart.eq_iff
    rw [List.map_cons, Prod.map_apply, List.lookup_cons, List.lookup_cons, same, ih]
    rfl

/-- A renaming that keeps kinds apart changes no answer of a profile. -/
theorem agrees_mapKinds (p : Profile) : Agrees rename p (p.mapKinds rename) where
  role? kind := by simp only [Profile.role?, mapKinds, contains_map_rename apart, lookup_map_rename apart]
  field? kind := by simp only [Profile.field?, mapKinds, contains_map_rename apart]

end Renamed

end Profile

/-! ## Trees -/

namespace Node

mutual

/-- The tree of a grammar whose kinds have other names. -/
def mapKinds (rename : Text → Text) : Node → Node
  | mk kind text startLine endLine isError children =>
      mk (rename kind) text startLine endLine isError (mapAllKinds rename children)

/-- Trees of a grammar whose kinds have other names. -/
def mapAllKinds (rename : Text → Text) : List Node → List Node
  | [] => []
  | node :: nodes => mapKinds rename node :: mapAllKinds rename nodes

end

theorem mapAllKinds_eq (rename : Text → Text) (nodes : List Node) :
    mapAllKinds rename nodes = nodes.map (mapKinds rename) := by
  induction nodes with
  | nil => rfl
  | cons node nodes ih => rw [mapAllKinds, ih, List.map_cons]

@[simp] theorem kind_mapKinds (rename : Text → Text) (node : Node) : (node.mapKinds rename).kind = rename node.kind := by
  cases node
  rfl

@[simp] theorem isError_mapKinds (rename : Text → Text) (node : Node) : (node.mapKinds rename).isError = node.isError := by
  cases node
  rfl

@[simp] theorem endLine_mapKinds (rename : Text → Text) (node : Node) : (node.mapKinds rename).endLine = node.endLine := by
  cases node
  rfl

@[simp] theorem children_mapKinds (rename : Text → Text) (node : Node) :
    (node.mapKinds rename).children = node.children.map (mapKinds rename) := by
  cases node
  exact mapAllKinds_eq rename _

section Agreement

variable {rename : Text → Text} {p p' : Profile}

mutual

/-- What a node adds to a data description does not depend on what kinds are called. -/
theorem addFields_of_agrees (agrees : Profile.Agrees rename p p') (f : DataFields) :
    ∀ node : Node, addFields p' f (node.mapKinds rename) = addFields p f node
  | mk kind text _ _ _ children => by
      rw [mapKinds, addFields, addFields, agrees.field?]
      cases p.field? kind with
      | none => exact addAllFields_of_agrees agrees f children
      | some field => cases field <;> rfl

theorem addAllFields_of_agrees (agrees : Profile.Agrees rename p p') (f : DataFields) :
    ∀ nodes : List Node, addAllFields p' f (mapAllKinds rename nodes) = addAllFields p f nodes
  | [] => rfl
  | node :: nodes => by
      rw [mapAllKinds, addAllFields, addAllFields, addFields_of_agrees agrees f node]
      exact addAllFields_of_agrees agrees (addFields p f node) nodes

end

variable (agrees : Profile.Agrees rename p p')

include agrees

theorem ownEvents_of_agrees (node : Node) : ownEvents p' (node.mapKinds rename) = ownEvents p node := by
  obtain ⟨kind, text, startLine, endLine, isError, children⟩ := node
  have item : dataItem? p' (mk (rename kind) text startLine endLine isError (mapAllKinds rename children)) =
      dataItem? p (mk kind text startLine endLine isError children) :=
    congrArg (DataFields.item? startLine) (addAllFields_of_agrees agrees .none children)
  rw [mapKinds, ownEvents, ownEvents, item]
  simp only [Node.kind, agrees.role?]
  rfl

theorem isClosed_of_agrees (kind : Text) : isClosed p' (rename kind) = isClosed p kind := by
  rw [isClosed, isClosed, agrees.role?]

theorem reports_of_agrees (node : Node) : reports p' (node.mapKinds rename) = reports p node := by
  simp only [reports, ownEvents_of_agrees agrees, kind_mapKinds, isClosed_of_agrees agrees, children_mapKinds,
    List.isEmpty_map, endLine_mapKinds]

/-- The visit reaches the same nodes, by their new names. -/
theorem reached_of_agrees (node : Node) :
    (node.mapKinds rename).reached p' = (node.reached p).map (mapKinds rename) := by
  induction node using Node.induction with
  | step node ih =>
    rw [reached_eq, reached_eq, List.map_cons, kind_mapKinds, isClosed_of_agrees agrees, children_mapKinds,
      List.flatMap_map]
    congr 1
    split
    · rfl
    · rw [List.map_flatMap]
      exact List.flatMap_congr ih

/-- What a visit reports and the errors it counts do not depend on what kinds are called. -/
theorem events_of_agrees (tree : Node) :
    (tree.mapKinds rename).events p' = tree.events p ∧ (tree.mapKinds rename).errorCount p' = tree.errorCount p := by
  constructor
  · rw [events_eq_flatMap, events_eq_flatMap, reached_of_agrees agrees, List.flatMap_map]
    exact List.flatMap_congr fun node _ => reports_of_agrees agrees node
  · rw [errorCount_eq_countP, errorCount_eq_countP, reached_of_agrees agrees, List.countP_map]
    exact List.countP_congr fun node _ => by rw [Function.comp_apply, isError_mapKinds]

end Agreement

/-- **Kinds are known through the profile alone.**  When the kinds of a tree and those that the profile lists are
renamed alike, and no two kinds get one name, the visit reports the same events and counts the same errors, so the
program of the tree is the same. -/
theorem ofTree_mapKinds {rename : Text → Text} (apart : Function.Injective rename) (p : Profile) (tree : Node) :
    (tree.mapKinds rename).events (p.mapKinds rename) = tree.events p ∧
      (tree.mapKinds rename).errorCount (p.mapKinds rename) = tree.errorCount p ∧
      ∀ path backend, Program.ofTree (p.mapKinds rename) path backend (tree.mapKinds rename) =
        Program.ofTree p path backend tree := by
  obtain ⟨events, errors⟩ := events_of_agrees (p.agrees_mapKinds apart) tree
  refine ⟨events, errors, ?_⟩
  intro path backend
  rw [Program.ofTree, Program.ofTree, events, errors]

/-! A grammar may call the headers of sections what another calls those of paragraphs. -/

/-- The two kinds of headers change their names. -/
def swapHeaders : Text → Text := Equiv.swap "section_header".toList "paragraph_header".toList

/-- A data item, a section with a paragraph that calls, and an error. -/
def headed : Node :=
  mk "start".toList [] 1 6 false
    [mk "data_division".toList [] 1 2 false
        [mk "linkage_section".toList [] 1 2 false
          [mk "data_description".toList "05 TOTAL PIC 9(4).".toList 2 2 false
            [mk "level_number".toList "05".toList 2 2 false [],
              mk "entry".toList [] 2 2 false [mk "entry_name".toList "TOTAL".toList 2 2 false []],
              mk "picture_clause".toList "PIC 9(4)".toList 2 2 false []]]],
      mk "procedure_division".toList [] 3 6 false
        [mk "section_header".toList "MAIN SECTION.".toList 4 4 false [],
          mk "paragraph_header".toList "FIRST-PARA.".toList 5 5 false [],
          mk "call_statement".toList "CALL 'SUB'".toList 6 6 false [mk "ERROR".toList ")".toList 6 6 true []]]]

theorem ofTree_mapKinds_swapped :
    let tree := headed.mapKinds swapHeaders
    let profile := Profile.standard.mapKinds swapHeaders
    let program := Program.ofTree profile ⟨"/src/headed.cbl".toList⟩ [] tree
    Function.Injective swapHeaders ∧ tree.events profile = headed.events Profile.standard ∧ tree.errorCount profile = 1 ∧
      program.dataSections = [⟨"LINKAGE".toList, [⟨5, "TOTAL".toList, some "9(4)".toList, 2⟩]⟩] ∧
      program.sections = [⟨"MAIN".toList, 4, ["FIRST-PARA".toList]⟩] ∧
      program.calls = [⟨"/src/headed.cbl".toList, "FIRST-PARA".toList, 6, "SUB".toList, none, false⟩] := by
  intro tree profile program
  have apart : Function.Injective swapHeaders := Equiv.injective _
  obtain ⟨events, errors, programs⟩ := ofTree_mapKinds apart Profile.standard headed
  have same : program = Program.ofTree Profile.standard ⟨"/src/headed.cbl".toList⟩ [] headed := programs _ _
  refine ⟨apart, events, errors.trans (by decide +kernel), ?_, ?_, ?_⟩
  · rw [same]
    decide +kernel
  · rw [same]
    decide +kernel
  · rw [same]
    decide +kernel

end Node

end CobolAtlas
