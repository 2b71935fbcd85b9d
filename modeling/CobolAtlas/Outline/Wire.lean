/-
# CobolAtlas.Outline.Wire -- outlines and their nodes as JSON

An outline is nested objects with their members in alphabetical order; `calls` and `children` are left out
when empty, `language` stands on files.  A single node is written in the order of its fields, its kind by
its word, and is read with its kind by constructor: the two forms of a kind differ.
-/
import CobolAtlas.Json.Reader
import CobolAtlas.Outline.Basic

namespace CobolAtlas

set_option autoImplicit false

open Json

/-- A member that is left out when the list is empty. -/
def Json.nonEmpty (name : String) (values : List Json) : List (Option Text × Json) :=
  if values.isEmpty then [] else member name (.array values)

/-! ## Outlines -/

namespace Outline

mutual

/-- The nested form. -/
def toJson : Outline → Json
  | node data children =>
      .object (nonEmpty "calls" (data.calls.map ofText) ++ nonEmpty "children" (allToJson children) ++
        member "endLine" (ofUInt32 data.endLine) ++ member "kind" (ofText data.kind.word) ++
        (if data.kind.isFile then member "language" (ofText "cobol".toList) else []) ++
        member "name" (ofText data.name) ++ member "path" (ofText data.path) ++
        optional "program" ofText data.program ++ member "startLine" (ofUInt32 data.startLine))

/-- The nested forms in order. -/
def allToJson : List Outline → List Json
  | [] => []
  | o :: os => toJson o :: allToJson os

end

end Outline

/-! ## Nodes -/

/-- The kind by the name of its constructor; a file carries its extension. -/
def NodeKind.ofJson? : Json → Option NodeKind
  | .string (some name) => ofName? name
  | .object [(some name, .null)] => ofName? name
  | .object [(some name, .string (some extension))] =>
      if name = "File".toList then some (.file extension) else none
  | _ => none
where
  ofName? (name : Text) : Option NodeKind :=
    [("Folder".toList, NodeKind.folder), ("Division".toList, .division), ("Section".toList, .sectionNode),
      ("Paragraph".toList, .paragraph)].lookup name

def NodeData.toJson (d : NodeData) : Json :=
  .object (member "name" (ofText d.name) ++ member "kind" (ofText d.kind.word) ++
    optional "program" ofText d.program ++ member "startLine" (ofUInt32 d.startLine) ++
    member "endLine" (ofUInt32 d.endLine) ++ member "path" (ofText d.path) ++
    nonEmpty "calls" (d.calls.map ofText))

def NodeData.ofJson? (v : Json) : Option NodeData := do
  match ← fields? (["name", "kind", "program", "startLine", "endLine", "path", "calls"].map
      String.toList) 7 v with
  | [name, kind, program, startLine, endLine, path, calls] =>
      some ⟨← need? asText? name, ← need? NodeKind.ofJson? kind,
        ← orElse? none (asOption? asText?) program, ← need? asUInt32? startLine,
        ← need? asUInt32? endLine, ← need? asText? path, ← need? (asList? asText?) calls⟩
  | _ => none

end CobolAtlas
