/-
# CobolAtlas.Proofs.Syntax.Names -- names of a tree are cleaned twice

The reader of a tree cleans the names of sections, paragraphs and data items before it reports them, and the assembly
cleans them once more.  `Node.written` are the reports with the names as they are written: what the reader reports are
these, cleaned (`events_eq_written`).  The name of a data description is the text of the first name among its fields
(`addAllFields_eq_foldl_fields`, `dataItem?_eq_written`).

So the program of a tree is the one that a single cleaning makes exactly if each name that is recorded is bare after one
cleaning (`cleaning_once_iff`).
-/
import CobolAtlas.Proofs.Program.Naming
import CobolAtlas.Proofs.Syntax.Fields

namespace CobolAtlas

set_option autoImplicit false

namespace Node

variable {profile : Profile}

/-! ## The name of a description -/

/-- Is the node the name of a description? -/
def isDataName (profile : Profile) (node : Node) : Bool := profile.field? node.kind == some .dataName

/-- The first name among the fields of a description, as it is written. -/
def dataName? (profile : Profile) (node : Node) : Option Text :=
  ((allFields profile node.children).find? (isDataName profile)).map Node.text

theorem name_foldl_addField (f : DataFields) (fields : List Node) :
    (fields.foldl (addField profile) f).name =
      f.name.or ((fields.find? (isDataName profile)).map fun field => Name.clean field.text) := by
  rw [foldl_addField]
  show f.name.or ((textsOf profile .dataName fields).head?.map Name.clean) = _
  rw [textsOf, List.head?_map, List.head?_filter, Option.map_map]
  rfl

/-! ## What is reported, with the names as they are written -/

/-- The data item of a description node, with its name as it is written. -/
def writtenItem? (profile : Profile) (node : Node) : Option DataItem :=
  (node.dataItem? profile).map fun item => { item with name := (node.dataName? profile).getD "FILLER".toList }

theorem dataItem?_eq_written (node : Node) :
    node.dataItem? profile = (node.writtenItem? profile).map fun item => { item with name := Name.clean item.name } := by
  have filler : Name.clean "FILLER".toList = "FILLER".toList := by decide
  have name : (addAllFields profile .none node.children).name = (node.dataName? profile).map Name.clean := by
    have unnamed : DataFields.none.name = none := rfl
    rw [addAllFields_eq_foldl_fields, name_foldl_addField, dataName?, Option.map_map, unnamed, Option.none_or,
      Function.comp_def]
  have cleaned : ((node.dataName? profile).map Name.clean).getD "FILLER".toList =
      Name.clean ((node.dataName? profile).getD "FILLER".toList) := by
    cases node.dataName? profile with
    | none => exact filler.symm
    | some name => rw [Option.map_some, Option.getD_some, Option.getD_some]
  rw [writtenItem?, Option.map_map, dataItem?, DataFields.item?, name, cleaned, Option.map_map]
  simp only [Function.comp_def]

/-- What a node itself reports, with the names as they are written. -/
def ownWritten (profile : Profile) (node : Node) : List Event :=
  match profile.role? node.kind with
  | some .dataItem => ((node.writtenItem? profile).map .dataItem).toList
  | some .sectionHeader => [.procedureSection (Text.firstWord node.text) node.startLine]
  | some .paragraphHeader => [.paragraph (Text.firstWord node.text) node.startLine]
  | _ => ownEvents profile node

/-- What the visit of a tree reports, with the names as they are written. -/
def written (profile : Profile) (tree : Node) : List Event :=
  (tree.reached profile).flatMap fun node => ownWritten profile node ++
    if isClosed profile node.kind then [] else if node.children.isEmpty then [.observe node.endLine] else []

theorem ownEvents_eq_written (node : Node) :
    ownEvents profile node = (ownWritten profile node).map Event.cleaned := by
  have statements (role : Role) : ((statement? role node.text node.startLine).map Event.statement).toList =
      (((statement? role node.text node.startLine).map Event.statement).toList).map Event.cleaned := by
    cases statement? role node.text node.startLine <;> rfl
  rw [ownWritten]
  cases role : profile.role? node.kind with
  | none => simp only [ownEvents, role, List.map_nil]
  | some here =>
    cases here with
    | dataItem =>
      simp only [ownEvents, role]
      rw [dataItem?_eq_written]
      cases node.writtenItem? profile <;> rfl
    | sectionHeader => simp only [ownEvents, role]; rfl
    | paragraphHeader => simp only [ownEvents, role]; rfl
    | programName => simp only [ownEvents, role]; rfl
    | division name => simp only [ownEvents, role]; rfl
    | dataSection name => simp only [ownEvents, role]; rfl
    | call => simp only [ownEvents, role]; exact statements .call
    | perform => simp only [ownEvents, role]; exact statements .perform
    | goTo => simp only [ownEvents, role]; exact statements .goTo

/-- The reader reports what is written, cleaned. -/
theorem events_eq_written (tree : Node) : tree.events profile = (tree.written profile).map Event.cleaned := by
  rw [events_eq_flatMap, written, List.map_flatMap]
  refine List.flatMap_congr fun node _ => ?_
  rw [reports, ownEvents_eq_written, List.map_append]
  congr 1
  split
  · rfl
  · split <;> rfl

/-- The names that the program of a tree records, as they are written. -/
def namesRecorded (profile : Profile) (tree : Node) : List Text :=
  History.gather History.namesRecorded (tree.written profile).reverse

end Node

/-- The program of a syntax tree whose names are cleaned by the assembly alone. -/
def Program.ofTreeWritten (profile : Profile) (path : Path) (backend : Text) (tree : Node) : Program :=
  Program.ofEvents path backend
    (tree.written profile ++ [.syntaxErrors (UInt32.ofNat (tree.errorCount profile))])

/-- The program of a tree is the one of a single cleaning exactly if a second one leaves its names alone. -/
theorem Program.ofTree_eq_written_iff (profile : Profile) (path : Path) (backend : Text) (tree : Node) :
    Program.ofTree profile path backend tree = Program.ofTreeWritten profile path backend tree ↔
      ∀ name ∈ tree.namesRecorded profile, Name.clean (Name.clean name) = Name.clean name := by
  let errors : Event := .syntaxErrors (UInt32.ofNat (tree.errorCount profile))
  have events : tree.events profile ++ [errors] = (tree.written profile ++ [errors]).map Event.cleaned := by
    rw [Node.events_eq_written, List.map_append]
    rfl
  have names : History.gather History.namesRecorded (tree.written profile ++ [errors]).reverse =
      tree.namesRecorded profile := by
    rw [List.reverse_append, List.reverse_singleton, List.singleton_append, History.gather_cons_of_nil rfl]
    rfl
  rw [← names, ← ofEvents_cleaned_iff path backend, ← events]
  rfl

/-- **Where a single cleaning is enough.**  Cleaning a name again and again ends at its bare name, which has nothing left
to clean.  One cleaning takes all quotes off both ends.  It leaves nothing to clean, and a second one does nothing,
exactly where it has reached the bare name; and the program of a tree, whose names are cleaned twice, is the one of a
single cleaning exactly if this is so for each name that it records. -/
theorem cleaning_once_iff (name : Text) (profile : Profile) (path : Path) (backend : Text) (tree : Node) :
    (Name.IsBare (Name.bare name) ∧ ∃ n ≤ name.length, Name.clean^[n] name = Name.bare name) ∧
      ((∀ c ∈ (Name.clean name).head?, Name.isQuote c = false) ∧
        ∀ c ∈ (Name.clean name).getLast?, Name.isQuote c = false) ∧
      (Name.IsBare (Name.clean name) ↔ Name.clean name = Name.bare name) ∧
      (Name.clean (Name.clean name) = Name.clean name ↔ Name.clean name = Name.bare name) ∧
      (Program.ofTree profile path backend tree = Program.ofTreeWritten profile path backend tree ↔
        ∀ recorded ∈ tree.namesRecorded profile, Name.clean recorded = Name.bare recorded) := by
  refine ⟨⟨Name.isBare_bare name, Name.exists_iterate_clean name⟩, Name.isQuote_ends_clean name, ?_,
    Name.clean_clean_iff name, ?_⟩
  · rw [← Name.clean_eq_self_iff, Name.clean_clean_iff]
  · rw [Program.ofTree_eq_written_iff]
    exact forall₂_congr fun recorded _ => Name.clean_clean_iff recorded

/-- Headers whose names are quoted with their periods. -/
def quotedHeaders : Node :=
  .mk "procedure_division".toList [] 1 3 false
    [.mk "section_header".toList "'MAIN.' SECTION.".toList 2 2 false [],
      .mk "paragraph_header".toList "'FIRST.'.".toList 3 3 false []]

/-- What stands inside the quotes is left by the first cleaning and taken off by the second. -/
theorem cleaned_again_differs :
    Name.clean "' A '".toList = " A ".toList ∧ Name.clean (Name.clean "' A '".toList) = "A".toList ∧
      ¬Name.IsBare (Name.clean "' A '".toList) ∧
      (Program.ofTree Profile.standard ⟨"/src/quoted.cbl".toList⟩ [] quotedHeaders).sections =
        [⟨"MAIN".toList, 2, ["FIRST".toList]⟩] ∧
      (Program.ofTreeWritten Profile.standard ⟨"/src/quoted.cbl".toList⟩ [] quotedHeaders).sections =
        [⟨"MAIN.".toList, 2, ["FIRST.".toList]⟩] := by
  refine ⟨by decide, by decide, fun isBare => ?_, by decide +kernel, by decide +kernel⟩
  exact absurd (isBare.first ' ' (by decide)) (by decide)

end CobolAtlas
