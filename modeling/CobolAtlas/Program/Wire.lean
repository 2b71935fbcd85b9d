/-
# CobolAtlas.Program.Wire -- programs and call edges as JSON

The written form of a program has one member for each field in order, but not the two that belong to a
run: whether the name was declared, and the call edges.  `thru`, the section of a paragraph and the count
of syntax errors are left out where there is none, `dynamic` of a statement where it is false; a picture
and the file of an edge are null instead.  Reading takes the members in any order.
-/
import CobolAtlas.Json.Printer
import CobolAtlas.Json.Reader
import CobolAtlas.Program.Basic

namespace CobolAtlas

set_option autoImplicit false

open Json

/-! ## Writing -/

def StatementKind.toJson (k : StatementKind) : Json := .ofText k.verb

def Statement.toJson (s : Statement) : Json :=
  .object (member "type" s.kind.toJson ++ member "target" (ofText s.target) ++
    optional "thru" ofText s.thru ++ member "line" (ofUInt32 s.line) ++
    if s.dynamic then member "dynamic" (.bool true) else [])

def Paragraph.toJson (p : Paragraph) : Json :=
  .object (member "name" (ofText p.name) ++ optional "section" ofText p.inSection ++
    member "line" (ofUInt32 p.line) ++ member "end_line" (ofUInt32 p.endLine) ++
    member "statements" (ofList Statement.toJson p.statements))

def ProcedureSection.toJson (s : ProcedureSection) : Json :=
  .object (member "name" (ofText s.name) ++ member "line" (ofUInt32 s.line) ++
    member "paragraphs" (ofList ofText s.paragraphs))

def DataItem.toJson (i : DataItem) : Json :=
  .object (member "level" (ofUInt32 i.level) ++ member "name" (ofText i.name) ++
    member "pic" (ofOption ofText i.picture) ++ member "line" (ofUInt32 i.line))

def DataSection.toJson (s : DataSection) : Json :=
  .object (member "name" (ofText s.name) ++ member "items" (ofList DataItem.toJson s.items))

def CallEdge.toJson (e : CallEdge) : Json :=
  .object (member "from_file" (ofText e.fromFile) ++ member "from_paragraph" (ofText e.fromParagraph) ++
    member "line" (ofUInt32 e.line) ++ member "to_program" (ofText e.toProgram) ++
    member "to_file" (ofOption ofText e.toFile) ++ member "dynamic" (.bool e.dynamic))

def Program.toJson (p : Program) : Json :=
  .object (member "file" (ofText p.file) ++ member "program_id" (ofText p.id) ++
    member "backend" (ofText p.backend) ++ member "divisions" (ofList ofText p.divisions) ++
    member "data_sections" (ofList DataSection.toJson p.dataSections) ++
    member "sections" (ofList ProcedureSection.toJson p.sections) ++
    member "paragraphs" (ofList Paragraph.toJson p.paragraphs) ++
    optional "syntax_errors" ofUInt32 p.syntaxErrors)

/-! ## Reading -/

/-- The verb as a string, or as the one member of an object with the value null. -/
def StatementKind.ofJson? : Json → Option StatementKind
  | .string (some verb) => ofVerb? verb
  | .object [(some verb, .null)] => ofVerb? verb
  | _ => none
where
  ofVerb? (verb : Text) : Option StatementKind :=
    [StatementKind.call, .perform, .goTo].find? fun k => k.verb == verb

def Statement.ofJson? (v : Json) : Option Statement := do
  match ← fields? (["type", "target", "thru", "line", "dynamic"].map String.toList) 4 v with
  | [kind, target, thru, line, dynamic] =>
      some ⟨← need? StatementKind.ofJson? kind, ← need? asText? target,
        ← orElse? none (asOption? asText?) thru, ← need? asUInt32? line, ← orElse? false asBool? dynamic⟩
  | _ => none

def Paragraph.ofJson? (v : Json) : Option Paragraph := do
  match ← fields? (["name", "section", "line", "end_line", "statements"].map String.toList) 5 v with
  | [name, inSection, line, endLine, statements] =>
      some ⟨← need? asText? name, ← orElse? none (asOption? asText?) inSection, ← need? asUInt32? line,
        ← need? asUInt32? endLine, ← need? (asList? Statement.ofJson?) statements⟩
  | _ => none

def ProcedureSection.ofJson? (v : Json) : Option ProcedureSection := do
  match ← fields? (["name", "line", "paragraphs"].map String.toList) 3 v with
  | [name, line, paragraphs] =>
      some ⟨← need? asText? name, ← need? asUInt32? line, ← need? (asList? asText?) paragraphs⟩
  | _ => none

def DataItem.ofJson? (v : Json) : Option DataItem := do
  match ← fields? (["level", "name", "pic", "line"].map String.toList) 4 v with
  | [level, name, picture, line] =>
      some ⟨← need? asUInt32? level, ← need? asText? name, ← orElse? none (asOption? asText?) picture,
        ← need? asUInt32? line⟩
  | _ => none

def DataSection.ofJson? (v : Json) : Option DataSection := do
  match ← fields? (["name", "items"].map String.toList) 2 v with
  | [name, items] => some ⟨← need? asText? name, ← need? (asList? DataItem.ofJson?) items⟩
  | _ => none

def CallEdge.ofJson? (v : Json) : Option CallEdge := do
  match ← fields? (["from_file", "from_paragraph", "line", "to_program", "to_file", "dynamic"].map
      String.toList) 5 v with
  | [fromFile, fromParagraph, line, toProgram, toFile, dynamic] =>
      some ⟨← need? asText? fromFile, ← need? asText? fromParagraph, ← need? asUInt32? line,
        ← need? asText? toProgram, ← orElse? none (asOption? asText?) toFile,
        ← orElse? false asBool? dynamic⟩
  | _ => none

/-- What is not written is read as undeclared and without calls. -/
def Program.ofJson? (v : Json) : Option Program := do
  match ← fields? (["file", "program_id", "backend", "divisions", "data_sections", "sections",
      "paragraphs", "syntax_errors"].map String.toList) 7 v with
  | [file, id, backend, divisions, dataSections, sections, paragraphs, syntaxErrors] =>
      some { file := ← need? asText? file
             id := ← need? asText? id
             backend := ← need? asText? backend
             divisions := ← need? (asList? asText?) divisions
             dataSections := ← need? (asList? DataSection.ofJson?) dataSections
             sections := ← need? (asList? ProcedureSection.ofJson?) sections
             paragraphs := ← need? (asList? Paragraph.ofJson?) paragraphs
             syntaxErrors := ← orElse? none (asOption? asUInt32?) syntaxErrors
             declaresId := false
             calls := [] }
  | _ => none

end CobolAtlas
