/-
# CobolAtlas.Outline.Repository -- the outline of scanned programs

`Outline.ofPrograms` hangs each program's file below the folders of its path, making a folder when the
first file asks for it; files that do not lie below the root hang directly under it.  Below a file are its
divisions.  The data division has its data sections; the procedure division has its sections in order and
then the paragraphs that stand in none.  Where several sections share a name, the last of them holds the
paragraphs of that name.
-/
import CobolAtlas.Outline.Basic
import CobolAtlas.Text.CaseMapping

namespace CobolAtlas

set_option autoImplicit false

/-! ## One program -/

namespace Program

/-- The paragraphs of the sections of a name. -/
def paragraphsIn (p : Program) (sectionName : Text) : List Paragraph :=
  p.paragraphs.filter fun q => q.inSection == some sectionName

/-- The paragraphs that stand in no listed section. -/
def looseParagraphs (p : Program) : List Paragraph :=
  p.paragraphs.filter fun q => match q.inSection with
    | none => true
    | some name => !p.sections.any (·.name == name)

end Program

namespace Outline

/-- A paragraph with the targets of its statements. -/
def ofParagraph (file : Text) (q : Paragraph) : Outline :=
  node ⟨q.name, .paragraph, none, q.line, q.endLine, file, q.statements.map (·.target)⟩ []

/-- A data section from its first item to its last. -/
def ofDataSection (file : Text) (s : DataSection) : Outline :=
  node ⟨s.name, .sectionNode, none, (s.items.head?.map (·.line)).getD 0,
    (s.items.getLast?.map (·.line)).getD 0, file, []⟩ []

/-- The last line of the paragraphs, or `line` when there are none. -/
def endOr (line : LineNumber) : List Paragraph → LineNumber
  | [] => line
  | q :: qs => (qs.map (·.endLine)).foldl max q.endLine

/-- The data of a procedure section; it ends where its paragraphs do. -/
def sectionData (p : Program) (s : ProcedureSection) : NodeData :=
  ⟨s.name, .sectionNode, none, s.line, endOr s.line (p.paragraphsIn s.name), p.file, []⟩

/-- The procedure sections in order; a section holds paragraphs if no later one has its name. -/
def ofSections (p : Program) : List ProcedureSection → List Outline
  | [] => []
  | s :: later =>
      node (sectionData p s)
        (if later.any (·.name == s.name) then [] else (p.paragraphsIn s.name).map (ofParagraph p.file)) ::
      ofSections p later

/-- A division and what it holds. -/
def ofDivision (p : Program) (name : Text) : Outline :=
  node (NodeData.plain name .division p.file)
    (if name = "DATA".toList then p.dataSections.map (ofDataSection p.file)
     else if name = "PROCEDURE".toList then
       ofSections p p.sections ++ p.looseParagraphs.map (ofParagraph p.file)
     else [])

/-- The file of a program, from its first line to the last that is known. -/
def ofProgram (p : Program) : Outline :=
  let path : Path := ⟨p.file⟩
  node ⟨path.fileName.getD [], .file ((path.extension.map Text.lower).getD []), some p.id, 1,
    max p.lastLine 1, p.file, []⟩ (p.divisions.map (ofDivision p))

/-! ## Folders -/

/-- The folders from below `root` down to `folder`, at most `steps` of them. -/
def foldersTo (root : Path) : Nat → Path → List Path
  | 0, _ => []
  | steps + 1, folder =>
      if folder.same root then []
      else match folder.parent with
        | none => [folder]
        | some parent => foldersTo root steps parent ++ [folder]

/-- The folders between the root and a file; none for a file outside the root. -/
def foldersOf (root file : Path) : List Path :=
  let folder := file.parent.getD root
  if folder.startsWith root then foldersTo root (folder.components.length + 1) folder else []

/-- A folder without content. -/
def emptyFolder (folder : Path) : NodeData :=
  NodeData.plain (folder.fileName.getD []) .folder folder.text

/-- Is the node the folder of that path? -/
def isFolder (folder : Path) (o : Outline) : Bool :=
  o.data.kind == .folder && (Path.mk o.data.path).same folder

/-- The first outline that satisfies `is`, changed by `change`; if there is none, `missing` at the end. -/
def changeFirst (is : Outline → Bool) (change : Outline → Outline) (missing : Outline) :
    List Outline → List Outline
  | [] => [missing]
  | o :: os => if is o then change o :: os else o :: changeFirst is change missing os

/-- `leaf` as the last child below the chain of folders, which are made where they are missing. -/
def attach (leaf : Outline) : List Path → Outline → Outline
  | [], node data children => node data (children ++ [leaf])
  | folder :: folders, node data children =>
      node data (changeFirst (isFolder folder) (attach leaf folders)
        (attach leaf folders (node (emptyFolder folder) [])) children)

/-- A root without content. -/
def emptyRoot (root : Path) : Outline :=
  node (NodeData.plain (root.fileName.getD "root".toList) .folder root.text) []

/-- The outline of programs below a root. -/
def ofPrograms (root : Path) (programs : List Program) : Outline :=
  programs.foldl (fun o p => attach (ofProgram p) (foldersOf root ⟨p.file⟩) o) (emptyRoot root)

end Outline

end CobolAtlas
