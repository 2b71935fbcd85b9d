/-
# CobolAtlas.Syntax.Profile -- what the node kinds of a grammar mean

A grammar names its nodes as it likes.  A `Profile` lists, for each role that a node can play, the kinds
that play it; for divisions and data sections it also gives the name that the program records.  The tree
reader knows kinds through `role?` and `field?` alone.  A profile can be read from JSON, where every field
that is left out has its default (`Profile.ofJson?`).
-/
import CobolAtlas.Json.Reader

namespace CobolAtlas

set_option autoImplicit false

/-- The node kinds that play each role. -/
structure Profile where
  programName : List Text
  /-- Kinds with the division each stands for. -/
  divisions : List (Text × Text)
  /-- Kinds with the data section each stands for. -/
  dataSections : List (Text × Text)
  dataItem : List Text
  levelNumber : List Text
  dataName : List Text
  picture : List Text
  sectionHeader : List Text
  paragraphHeader : List Text
  call : List Text
  perform : List Text
  goTo : List Text
deriving DecidableEq

/-- What a node is to the reader of a tree. -/
inductive Role where
  | programName
  | division (name : Text)
  | dataSection (name : Text)
  | dataItem
  | sectionHeader
  | paragraphHeader
  | call
  | perform
  | goTo
deriving DecidableEq

/-- What a node below a data description is to it. -/
inductive FieldRole where
  | dataItem
  | levelNumber
  | dataName
  | picture
deriving DecidableEq

namespace Profile

/-- The kinds of the public COBOL grammar. -/
def standard : Profile where
  programName := ["program_name".toList]
  divisions :=
    [("identification_division".toList, "IDENTIFICATION".toList),
      ("environment_division".toList, "ENVIRONMENT".toList),
      ("data_division".toList, "DATA".toList),
      ("procedure_division".toList, "PROCEDURE".toList)]
  dataSections :=
    [("file_section".toList, "FILE".toList),
      ("working_storage_section".toList, "WORKING-STORAGE".toList),
      ("local_storage_section".toList, "LOCAL-STORAGE".toList),
      ("linkage_section".toList, "LINKAGE".toList),
      ("report_section".toList, "REPORT".toList),
      ("screen_section".toList, "SCREEN".toList)]
  dataItem := ["data_description".toList]
  levelNumber := ["level_number".toList]
  dataName := ["entry_name".toList]
  picture := ["picture_clause".toList]
  sectionHeader := ["section_header".toList]
  paragraphHeader := ["paragraph_header".toList]
  call := ["call_statement".toList]
  perform := ["perform_statement_call_proc".toList, "perform_statement_loop".toList]
  goTo := ["goto_statement".toList]

/-- The role of a kind.  A kind listed under several roles plays the first of them. -/
def role? (p : Profile) (kind : Text) : Option Role :=
  if p.programName.contains kind then some .programName
  else match p.divisions.lookup kind with
    | some name => some (.division name)
    | none => match p.dataSections.lookup kind with
      | some name => some (.dataSection name)
      | none =>
          if p.dataItem.contains kind then some .dataItem
          else if p.sectionHeader.contains kind then some .sectionHeader
          else if p.paragraphHeader.contains kind then some .paragraphHeader
          else if p.call.contains kind then some .call
          else if p.perform.contains kind then some .perform
          else if p.goTo.contains kind then some .goTo
          else none

/-- The role of a kind below a data description. -/
def field? (p : Profile) (kind : Text) : Option FieldRole :=
  if p.dataItem.contains kind then some .dataItem
  else if p.levelNumber.contains kind then some .levelNumber
  else if p.dataName.contains kind then some .dataName
  else if p.picture.contains kind then some .picture
  else none

/-! ## JSON -/

open Json

/-- The pair put in place of one with the same key, or at the end. -/
def putPair (pair : Text × Text) : List (Text × Text) → List (Text × Text)
  | [] => [pair]
  | other :: pairs => if other.1 = pair.1 then pair :: pairs else other :: putPair pair pairs

/-- An object of strings; of members with the same name the last counts. -/
def pairs? : Json → Option (List (Text × Text))
  | .object members => do
      let pairs ← members.mapM fun m => do some (← m.1, ← asText? m.2)
      some (pairs.foldl (fun kept pair => putPair pair kept) [])
  | _ => none

/-- The names of the fields in JSON, in order. -/
def fieldNames : List Text :=
  ["program_name", "divisions", "data_sections", "data_item", "level_number", "data_name", "picture",
    "section_header", "paragraph_header", "call", "perform", "goto"].map String.toList

/-- A profile from JSON; a field that is missing has its standard value. -/
def ofJson? (v : Json) : Option Profile := do
  let kinds := asList? asText?
  match ← fields? fieldNames 0 v with
  | [programName, divisions, dataSections, dataItem, levelNumber, dataName, picture, sectionHeader,
      paragraphHeader, call, perform, goTo] =>
      some { programName := ← orElse? standard.programName kinds programName
             divisions := ← orElse? standard.divisions pairs? divisions
             dataSections := ← orElse? standard.dataSections pairs? dataSections
             dataItem := ← orElse? standard.dataItem kinds dataItem
             levelNumber := ← orElse? standard.levelNumber kinds levelNumber
             dataName := ← orElse? standard.dataName kinds dataName
             picture := ← orElse? standard.picture kinds picture
             sectionHeader := ← orElse? standard.sectionHeader kinds sectionHeader
             paragraphHeader := ← orElse? standard.paragraphHeader kinds paragraphHeader
             call := ← orElse? standard.call kinds call
             perform := ← orElse? standard.perform kinds perform
             goTo := ← orElse? standard.goTo kinds goTo }
  | _ => none

/-- The members of a profile in JSON. -/
def toJson (p : Profile) : Json :=
  let kinds := ofList ofText
  let pairs := fun (ps : List (Text × Text)) => Json.object (ps.map fun q => (some q.1, ofText q.2))
  .object (member "program_name" (kinds p.programName) ++ member "divisions" (pairs p.divisions) ++
    member "data_sections" (pairs p.dataSections) ++ member "data_item" (kinds p.dataItem) ++
    member "level_number" (kinds p.levelNumber) ++ member "data_name" (kinds p.dataName) ++
    member "picture" (kinds p.picture) ++ member "section_header" (kinds p.sectionHeader) ++
    member "paragraph_header" (kinds p.paragraphHeader) ++ member "call" (kinds p.call) ++
    member "perform" (kinds p.perform) ++ member "goto" (kinds p.goTo))

end Profile

end CobolAtlas
