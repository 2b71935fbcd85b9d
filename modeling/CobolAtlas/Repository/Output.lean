/-
# CobolAtlas.Repository.Output -- the files that a run writes

Every program of a survey gets a structure file below the output directory, in the place that its source has
below the root and with the source's extension replaced (`structurePath`).  The call graph is written last.
What was written before a failure stays.
-/
import CobolAtlas.Json.Printer
import CobolAtlas.Repository.Survey

namespace CobolAtlas

set_option autoImplicit false

/-- The extension of a structure file. -/
def structureExtension : Text := "structure.json".toList

/-- The structure file of a source file; one outside the root counts by its name alone. -/
def structurePath (output root file : Path) : Path :=
  (output.join ((file.relativeTo? root).getD ⟨file.fileName.getD []⟩)).withExtension structureExtension

/-- The content of a file of JSON. -/
def Json.fileContent (v : Json) : Bytes := Utf8.encode (Json.pretty v)

/-- What a run has done. -/
structure Report where
  programs : Nat
  /-- The name of the reader that was used. -/
  reader : Text
  calls : CallGraph.Totals
  output : Path
  callGraph : Path
  structureFiles : List Path
deriving DecidableEq

namespace Survey

/-- Writes a value to a file, in a directory that is made if need be. -/
def writeJson (file : Path) (v : Json) : Run Unit := do
  Run.makeParent file
  Run.write file v.fileContent

/-- Writes the structure file of a program. -/
def writeStructure (s : Survey) (output : Path) (p : Program) : Run Path := do
  let file := structurePath output s.root ⟨p.file⟩
  writeJson file p.toJson
  pure file

/-- Writes the structure files of all programs. -/
def writeStructures (s : Survey) (output : Path) : Run (List Path) := do
  Run.makeDirectories output (.outputNotCreated output)
  s.programs.mapM (s.writeStructure output)

end Survey

/-- Surveys the repository of the settings and writes what is found. -/
def writeRepository (host : Host) (s : Settings) : Run Report := do
  let survey ← Survey.take host s
  let structureFiles ← survey.writeStructures s.output
  Survey.writeJson s.callGraph survey.graph.toJson
  pure ⟨survey.programs.length, survey.reader, survey.graph.totals, s.output, s.callGraph, structureFiles⟩

end CobolAtlas
