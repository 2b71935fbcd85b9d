/-
# CobolAtlas.Proofs.Skeleton.Description -- a data description, as a line and as a tree

A `Description` has a level, perhaps a name, and a picture.  It may be written on a line (`Description.code`), or it may
be a node of a syntax tree with a child for each part (`Description.Describes`).  Both readers find the level, the name
and the picture that are written (`Description.dataItem?_code`, `Description.dataItem?_node`), and report the
description to the open data section.

The main statement is `description_readers`: they record the same exactly if the description has a name.  Where it has
none, the reader of lines takes PIC for the name, and the reader of trees makes it a filler (`description_unnamed`).
-/
import CobolAtlas.Proofs.Skeleton.Reading
import CobolAtlas.Proofs.Syntax.Visit

namespace CobolAtlas.Skeleton

set_option autoImplicit false

open Text Source

/-! ## Descriptions -/

/-- The name of a data item.  Only words that a header or a clause takes for its own are excluded. -/
structure DataName where
  text : Text
  plain : text.all isPlain = true := by decide +kernel
  starts : text.head?.any Char.isAlphanum = true := by decide +kernel
  ends : text.getLast?.any Char.isAlphanum = true := by decide +kernel
  unreserved : isOneOf ["PIC".toList, "PICTURE".toList, "SECTION".toList] text = false := by decide +kernel
  noDivision : "DIVISION".toList.isPrefixOf (upperAscii text) = false := by decide +kernel

/-- A data description with a picture. -/
structure Description where
  level : Level
  name : Option DataName
  picture : PictureString

namespace DataName

variable (u : DataName)

theorem isWord : IsWord u.text := isWord_of_plain u.plain

theorem spells_eq_false {k : Text} (among : k ∈ ["PIC".toList, "PICTURE".toList, "SECTION".toList]) :
    spells k u.text = false := spells_eq_false_of_not_oneOf (ascii_of_plain u.plain) u.unreserved among

end DataName

namespace Description

variable (d : Description)

def pieces : List Text := d.level.text :: ((d.name.map (·.text)).toList ++ ["PIC".toList, d.picture.text])

/-- The text of a description. -/
def code : Text := sentence true d.pieces

/-- The item that is recorded, with a word for an omitted name. -/
def record (omitted : Text) (line : LineNumber) : DataItem where
  level := UInt32.ofNat d.level.number
  name := (d.name.map (·.text)).getD omitted
  picture := some d.picture.text
  line := line

/-! ## The line -/

/-- The word behind the level: the name, or PIC. -/
def second : Text := (d.name.map (·.text)).getD "PIC".toList

theorem second_spec : IsWord d.second ∧ d.second.getLast?.any Char.isAlphanum = true ∧
    afterKeyword? "DIVISION".toList d.second = none ∧ spells "SECTION".toList d.second = false := by
  unfold second
  cases d.name with
  | none => exact ⟨isWord_of_isKeyword (by decide), by decide, by decide, by decide⟩
  | some u =>
    refine ⟨u.isWord, u.ends, ?_, u.spells_eq_false (by decide)⟩
    exact afterKeyword?_eq_none_of_not_prefix (ascii_of_plain u.plain) u.noDivision

theorem exists_code_eq : ∃ rest, d.code = d.level.text ++ ' ' :: (d.second ++ rest) ∧ endsName rest = true := by
  unfold code pieces second
  cases d.name with
  | none => exact ⟨' ' :: (d.picture.text ++ ['.']), rfl, rfl⟩
  | some u => exact ⟨' ' :: sentence true ["PIC".toList, d.picture.text], rfl, rfl⟩

theorem picture?_code : picture? d.code = some d.picture.text := by
  apply d.picture.picture?_of_search fun _ => eq_period_of_mem_ending
  have clause := search_eq_some pictureClause? (d.picture.pictureClause?_text true)
  unfold code pieces
  cases d.name with
  | none =>
    show search pictureClause? (d.level.text ++ ' ' :: sentence true ["PIC".toList, d.picture.text]) = _
    rw [search_pictureClause?_level, clause]
  | some u =>
    show search pictureClause? (d.level.text ++ ' ' :: (u.text ++ ' ' :: sentence true ["PIC".toList, d.picture.text])) = _
    rw [search_pictureClause?_level, search_pictureClause?_word u.isWord (u.spells_eq_false (by decide))
      (u.spells_eq_false (by decide)), clause]

theorem dataItem?_code (line : LineNumber) : Source.dataItem? line d.code = some (d.record "PIC".toList line) := by
  obtain ⟨rest, written, ends⟩ := d.exists_code_eq
  obtain ⟨word, lastOfWord, -, -⟩ := d.second_spec
  have parts : levelAndName? d.code = some (d.level.text, d.second) := by
    rw [written, levelAndName?_append d.level word lastOfWord ends]
  simp only [Source.dataItem?, parts, d.level.unsigned?_text, d.picture?_code, Option.bind_eq_bind, Option.bind_some]
  rfl

theorem header?_code : Source.header? d.code = none := by
  obtain ⟨rest, written, ends⟩ := d.exists_code_eq
  obtain ⟨word, lastOfWord, noDivision, notSection⟩ := d.second_spec
  have nonempty : d.second ≠ [] := by
    intro empty
    rw [empty] at lastOfWord
    cases lastOfWord
  rw [written]
  exact header?_words d.level.isWord d.level.starts (d.level.spells_eq_false (by decide) _) word nonempty noDivision
    notSection ends

theorem mem_pieces {piece : Text} (member : piece ∈ d.pieces) : IsWord piece ∨ piece = d.picture.text := by
  simp only [pieces, List.mem_cons, List.mem_append, Option.mem_toList, Option.map_eq_some_iff,
    List.not_mem_nil, or_false] at member
  rcases member with rfl | ⟨u, -, rfl⟩ | rfl | rfl
  · exact .inl d.level.isWord
  · exact .inl u.isWord
  · exact .inl (isWord_of_isKeyword (by decide))
  · exact .inr rfl

/-- A description can be put on a line. -/
theorem isCode : IsCode d.code where
  starts := exists_cons_of_head?_any (starts_sentence d.level.starts _)
  ends := by rw [code, getLast?_sentence]; rfl
  oneLine := by
    intro member
    rcases mem_of_mem_sentence member with blank | atEnd | ⟨piece, among, inside⟩
    · cases blank
    · cases atEnd
    · rcases d.mem_pieces among with word | rfl
      · exact not_mem_of_isWord word (by decide) inside
      · exact d.picture.not_mem (by decide) (by decide) inside
  noComment := by
    apply beforeComment_sentence
    intro piece among
    apply beforeComment_of_not_mem
    rcases d.mem_pieces among with word | rfl
    · exact not_mem_of_isWord word (by decide)
    · exact d.picture.not_mem (by decide) (by decide)

/-- In the data division the line adds the item to the open data section. -/
theorem dataSections_scan {margin : Margin} (holds : margin.Holds d.code) {s : Scan}
    (inData : s.assembly.division = some "DATA".toList) (n : Nat) :
    ((numberedCode n [margin.place d.code]).foldl Scan.advance s).assembly.dataSections =
      (s.assembly.addDataItem (d.record "PIC".toList (UInt32.ofNat n))).dataSections := by
  have read : numberedCode n [margin.place d.code] = [(UInt32.ofNat n, d.code)] := by
    rw [numberedCode, numberedCode, d.isCode.code?_place holds]
    rfl
  have events : lineEvents s.assembly.division s.sentenceStart (UInt32.ofNat n) d.code =
      [.dataItem (d.record "PIC".toList (UInt32.ofNat n))] :=
    (Report.item _ d.header?_code inData (d.dataItem?_code _)).eq
  rw [read, List.foldl_cons, List.foldl_nil, Scan.advance, events]
  rfl

/-! ## The node -/

/-- The kinds and texts of the nodes right below a description. -/
def fields : List (Text × Text) :=
  ("level_number".toList, d.level.text) :: ((d.name.map fun u => ("entry_name".toList, u.text)).toList ++
    [("picture_clause".toList, sentence false ["PIC".toList, d.picture.text])])

/-- The node is the description: its children are the parts, and the nodes below them play no role. -/
structure Describes (node : Node) : Prop where
  kind : node.kind = "data_description".toList
  children : node.children.map (fun child => (child.kind, child.text)) = d.fields
  inner : ∀ child ∈ node.children, ∀ below ∈ child.children.flatMap (Node.reached Profile.standard),
    Profile.standard.role? below.kind = none

variable {d} {node : Node}

/-- The children are of the kinds of fields, and play no role in the visit. -/
theorem kind_of_mem_fields {field : Text × Text} (member : field ∈ d.fields) :
    (Profile.standard.field? field.1).isSome = true ∧ Profile.standard.role? field.1 = none := by
  have kinds : ∀ kind ∈ ["level_number".toList, "entry_name".toList, "picture_clause".toList],
      (Profile.standard.field? kind).isSome = true ∧ Profile.standard.role? kind = none := by decide +kernel
  apply kinds
  simp only [fields, List.mem_cons, List.mem_append, Option.mem_toList, Option.map_eq_some_iff, List.not_mem_nil,
    or_false] at member
  rcases member with rfl | ⟨u, -, rfl⟩ | rfl
  · exact .head _
  · exact .tail _ (.head _)
  · exact .tail _ (.tail _ (.head _))

theorem Describes.kind_of_mem (describes : d.Describes node) {child : Node} (among : child ∈ node.children) :
    (Profile.standard.field? child.kind).isSome = true ∧ Profile.standard.role? child.kind = none := by
  have isField : (child.kind, child.text) ∈ d.fields := by
    rw [← describes.children]
    exact List.mem_map_of_mem among
  exact kind_of_mem_fields isField

/-- What a node of this kind and text adds to a description, if it is of the kind of a field. -/
def addField (f : DataFields) (field : Text × Text) : DataFields :=
  match Profile.standard.field? field.1 with
  | some .levelNumber => f.addLevel field.2
  | some .dataName => f.addName field.2
  | some .picture => f.addPicture field.2
  | _ => f

/-- Nodes of the kinds of fields are not entered. -/
theorem addAllFields_eq_foldl {nodes : List Node}
    (fields : ∀ node ∈ nodes, (Profile.standard.field? node.kind).isSome = true) (f : DataFields) :
    Node.addAllFields Profile.standard f nodes = (nodes.map fun node => (node.kind, node.text)).foldl addField f := by
  induction nodes generalizing f with
  | nil => rfl
  | cons node nodes ih =>
    obtain ⟨isField, others⟩ := List.forall_mem_cons.1 fields
    have here : node.addFields Profile.standard f = addField f (node.kind, node.text) := by
      obtain ⟨role, found⟩ := Option.isSome_iff_exists.1 isField
      obtain ⟨kind, text, startLine, endLine, isError, children⟩ := node
      replace found : Profile.standard.field? kind = some role := found
      show Node.addFields Profile.standard f (.mk kind text startLine endLine isError children) = addField f (kind, text)
      rw [Node.addFields, addField]
      simp only [found]
      cases role <;> rfl
    rw [Node.addAllFields, here, ih others, List.map_cons, List.foldl_cons]

variable (d) in
theorem foldl_fields :
    d.fields.foldl addField .none = ⟨some (UInt32.ofNat d.level.number), d.name.map (·.text), some d.picture.text⟩ := by
  have isLevel : Profile.standard.field? "level_number".toList = some .levelNumber := by decide
  have isName : Profile.standard.field? "entry_name".toList = some .dataName := by decide
  have isPicture : Profile.standard.field? "picture_clause".toList = some .picture := by decide
  have notBlank : ∀ c ∈ d.level.text, isBlank c = false := fun c member =>
    isBlank_of_isNameCharacter (d.level.isWord c member)
  have trimmed : trim d.level.text = d.level.text :=
    trim_eq_self (fun c head => notBlank c (List.mem_of_head? head)) fun c last => notBlank c (List.mem_of_getLast? last)
  have picture := d.picture.picture?_of_search (fun _ => eq_period_of_mem_ending)
    (search_eq_some pictureClause? (d.picture.pictureClause?_text false))
  unfold fields
  cases d.name with
  | none =>
    simp only [Option.map_none, Option.toList_none, List.nil_append, List.foldl_cons, List.foldl_nil, addField, isLevel,
      isPicture, DataFields.addLevel, DataFields.addPicture, trimmed, d.level.unsigned?_text, picture]
    rfl
  | some u =>
    simp only [Option.map_some, Option.toList_some, List.singleton_append, List.foldl_cons, List.foldl_nil, addField,
      isLevel, isName, isPicture, DataFields.addLevel, DataFields.addName, DataFields.addPicture, trimmed,
      d.level.unsigned?_text, (Name.isBare_of_isWord u.isWord).clean_eq_self, picture]
    rfl

/-- A node that is a description gives its item. -/
theorem dataItem?_node (describes : d.Describes node) :
    node.dataItem? Profile.standard = some (d.record "FILLER".toList node.startLine) := by
  rw [Node.dataItem?, addAllFields_eq_foldl fun child among => (describes.kind_of_mem among).1, describes.children,
    foldl_fields]
  rfl

/-- Nodes without a role report lines alone. -/
theorem observe_of_mem_reports {event : Event} {node : Node} (noRole : Profile.standard.role? node.kind = none)
    (member : event ∈ Node.reports Profile.standard node) : ∃ line, event = .observe line := by
  rw [Node.reports, Node.ownEvents, noRole, List.nil_append] at member
  split at member
  · cases member
  · split at member
    · exact ⟨_, List.mem_singleton.1 member⟩
    · cases member

/-- A description reports its item, and lines after it. -/
theorem exists_events_eq (describes : d.Describes node) :
    ∃ lines, node.events Profile.standard = .dataItem (d.record "FILLER".toList node.startLine) :: lines ∧
      ∀ event ∈ lines, ∃ line, event = .observe line := by
  have role : Profile.standard.role? node.kind = some .dataItem := by
    rw [describes.kind]
    decide
  have isOpen : Node.isClosed Profile.standard node.kind = false := by rw [Node.isClosed, role]
  have hasChildren : node.children.isEmpty = false := by
    have children := describes.children
    cases empty : node.children with
    | nil =>
      rw [empty] at children
      cases children
    | cons child rest => rfl
  have own : Node.reports Profile.standard node = [.dataItem (d.record "FILLER".toList node.startLine)] := by
    rw [Node.reports, Node.ownEvents, role, isOpen, hasChildren, dataItem?_node describes]
    rfl
  refine ⟨node.children.flatMap (Node.events Profile.standard), ?_, ?_⟩
  · rw [Node.events_eq, own, isOpen]
    rfl
  · intro event member
    obtain ⟨child, among, member⟩ := List.mem_flatMap.1 member
    rw [Node.events_eq_flatMap, List.mem_flatMap] at member
    obtain ⟨below, isReached, member⟩ := member
    apply observe_of_mem_reports _ member
    rw [Node.reached_eq] at isReached
    rcases List.mem_cons.1 isReached with rfl | deeper
    · exact (describes.kind_of_mem among).2
    · split at deeper
      · cases deeper
      · exact describes.inner child among below deeper

theorem dataSections_run_of_observe {events : List Event} (lines : ∀ event ∈ events, ∃ line, event = .observe line)
    (a : Assembly) : (a.run events).dataSections = a.dataSections := by
  induction events generalizing a with
  | nil => rfl
  | cons event events ih =>
    obtain ⟨line, rfl⟩ := lines event List.mem_cons_self
    rw [Assembly.run_cons, ih fun later member => lines later (List.mem_cons_of_mem _ member)]
    rfl

/-- The visit of the node adds the item to the open data section. -/
theorem dataSections_visit (describes : d.Describes node) (a : Assembly) :
    (a.run (node.events Profile.standard)).dataSections =
      (a.addDataItem (d.record "FILLER".toList node.startLine)).dataSections := by
  obtain ⟨lines, events, observes⟩ := exists_events_eq describes
  rw [events, Assembly.run_cons, dataSections_run_of_observe observes]
  rfl

/-! ## Both readers -/

/-- **The two readers agree on a data description exactly if it has a name.**  A line with the description, in any
format, and a node with the same texts on that line, each add one item to the open data section.  Level and picture are
those that are written, and so is the name if there is one.  In place of an omitted name the reader of lines takes PIC,
and the reader of trees FILLER. -/
theorem description_readers (d : Description) {margin : Margin} (holds : margin.Holds d.code) {node : Node}
    (describes : d.Describes node) {s : Scan} (inData : s.assembly.division = some "DATA".toList) (n : Nat)
    (sameLine : node.startLine = UInt32.ofNat n) :
    let scanned := ((numberedCode n [margin.place d.code]).foldl Scan.advance s).assembly.dataSections
    let visited := (s.assembly.run (node.events Profile.standard)).dataSections
    scanned = (s.assembly.addDataItem (d.record "PIC".toList (UInt32.ofNat n))).dataSections ∧
      visited = (s.assembly.addDataItem (d.record "FILLER".toList (UInt32.ofNat n))).dataSections ∧
      (d.name.isSome = true → scanned = visited) ∧
      (Source.dataItem? (UInt32.ofNat n) d.code = node.dataItem? Profile.standard ↔ d.name.isSome = true) := by
  intro scanned visited
  have scans : scanned = (s.assembly.addDataItem (d.record "PIC".toList (UInt32.ofNat n))).dataSections :=
    d.dataSections_scan holds inData n
  have visits : visited = (s.assembly.addDataItem (d.record "FILLER".toList (UInt32.ofNat n))).dataSections := by
    rw [← sameLine]
    exact dataSections_visit describes s.assembly
  have same (named : d.name.isSome = true) (line : LineNumber) :
      d.record "PIC".toList line = d.record "FILLER".toList line := by
    obtain ⟨u, name⟩ := Option.isSome_iff_exists.1 named
    simp only [record, name, Option.map_some, Option.getD_some]
  refine ⟨scans, visits, fun named => ?_, ?_⟩
  · rw [scans, visits, same named]
  · rw [d.dataItem?_code, dataItem?_node describes, sameLine, Option.some.injEq]
    constructor
    · intro equal
      cases named : d.name with
      | some u => rfl
      | none =>
        have names := congrArg DataItem.name equal
        simp only [record, named, Option.map_none, Option.getD_none] at names
        exact absurd names (by decide)
    · exact fun named => same named _

/-- A node for the description, with leaves for its parts. -/
def toNode (d : Description) (line : LineNumber) : Node :=
  .mk "data_description".toList d.code line line false (d.fields.map fun field => .mk field.1 field.2 line line false [])

theorem describes_toNode (d : Description) (line : LineNumber) : d.Describes (d.toNode line) where
  kind := rfl
  children := by
    show (d.fields.map fun field => Node.mk field.1 field.2 line line false []).map _ = d.fields
    rw [List.map_map]
    exact List.map_id d.fields
  inner := by
    intro child among below deeper
    obtain ⟨field, -, rfl⟩ := List.mem_map.1 among
    cases deeper

/-- A description whose name begins as the end of a statement does. -/
def endOfFile : Description where
  level := { number := 10, wide := true }
  name := some { text := "END-OF-FILE".toList }
  picture := { text := "9(2)V99".toList }

/-- A description without a name. -/
def unnamed : Description where
  level := { number := 10, wide := true }
  name := none
  picture := { text := "X(3)".toList }

theorem description_readers_endOfFile :
    let s := scan ⟨"/src/NAMED.cbl".toList⟩ "DATA DIVISION.\nWORKING-STORAGE SECTION.\n".toList
    let margin : Margin := .fixed "000300".toList 0 none
    let scanned := ((numberedCode 3 [margin.place endOfFile.code]).foldl Scan.advance s).assembly.dataSections
    margin.place endOfFile.code = "000300 10 END-OF-FILE PIC 9(2)V99.".toList ∧
      scanned = (s.assembly.run ((endOfFile.toNode 3).events Profile.standard)).dataSections ∧
      scanned = [⟨"WORKING-STORAGE".toList, [⟨10, "END-OF-FILE".toList, some "9(2)V99".toList, 3⟩]⟩] := by
  intro s margin scanned
  have holds : margin.Holds endOfFile.code := ⟨rfl, .inl rfl, by decide +kernel, fun t isSome => by cases isSome⟩
  have inData : s.assembly.division = some "DATA".toList := by decide +kernel
  obtain ⟨-, -, agree, -⟩ := description_readers endOfFile holds (endOfFile.describes_toNode 3) inData 3 rfl
  exact ⟨by decide +kernel, agree rfl, by decide +kernel⟩

/-- An omitted name is PIC to the one reader and FILLER to the other. -/
theorem description_unnamed :
    let path : Path := ⟨"/src/FILLED.cbl".toList⟩
    let written := "DATA DIVISION.\nWORKING-STORAGE SECTION.\n10 PIC X(3).\n".toList
    let tree : Node := .mk "data_division".toList written 1 3 false
      [.mk "working_storage_section".toList [] 2 3 false [unnamed.toNode 3]]
    unnamed.code = "10 PIC X(3).".toList ∧
      (Program.ofSource path written).dataSections =
        [⟨"WORKING-STORAGE".toList, [⟨10, "PIC".toList, some "X(3)".toList, 3⟩]⟩] ∧
      (Program.ofTree Profile.standard path "tree-sitter".toList tree).dataSections =
        [⟨"WORKING-STORAGE".toList, [⟨10, "FILLER".toList, some "X(3)".toList, 3⟩]⟩] := by
  decide +kernel

end Description

end CobolAtlas.Skeleton
