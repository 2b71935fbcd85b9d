/-
# CobolAtlas.Outline.Build -- the outline of scanned programs, node by node

A `Build` is the sequence of additions that grows the outline of programs, with the places of the folders that are
known.  The folder of a file is looked up among the known ones; a new one is added below the folder above it, which
is ensured first (`ensure`).  The node of a file comes with those of its divisions, sections and paragraphs
(`addFile`).  A node's place is the number of additions before it.
-/
import CobolAtlas.Outline.Growth
import CobolAtlas.Outline.Repository

namespace CobolAtlas

set_option autoImplicit false

/-- The additions so far, and the places of the known folders, the latest first. -/
structure Build where
  additions : List Addition
  folders : List (Path × Nat)

namespace Build

/-! ## One program -/

/-- One more section below the division; of sections with one name the latest is known. -/
def addSection (p : Program) (division : Nat) (state : List Addition × List (Text × Nat)) (s : ProcedureSection) :
    List Addition × List (Text × Nat) :=
  (state.1 ++ [⟨some division, Outline.sectionData p s⟩], (s.name, state.1.length) :: state.2)

/-- The place of the section that a paragraph stands in, or that of the division. -/
def parentOf (division : Nat) (places : List (Text × Nat)) (q : Paragraph) : Nat :=
  (q.inSection.bind fun name => places.lookup name).getD division

/-- The sections of a program and then its paragraphs. -/
def addProcedure (p : Program) (division : Nat) (additions : List Addition) : List Addition :=
  let sections := p.sections.foldl (addSection p division) (additions, [])
  p.paragraphs.foldl (fun additions q =>
    additions ++ [⟨some (parentOf division sections.2 q), (Outline.ofParagraph p.file q).data⟩]) sections.1

/-- A division below the file, and what it holds. -/
def addDivision (p : Program) (file : Nat) (additions : List Addition) (name : Text) : List Addition :=
  let division := additions.length
  let additions := additions ++ [⟨some file, NodeData.plain name .division p.file⟩]
  if name = "DATA".toList then
    p.dataSections.foldl (fun additions s =>
      additions ++ [⟨some division, (Outline.ofDataSection p.file s).data⟩]) additions
  else if name = "PROCEDURE".toList then addProcedure p division additions
  else additions

/-- The file of a program below the node at a place, and its divisions. -/
def addFile (p : Program) (parent : Nat) (additions : List Addition) : List Addition :=
  p.divisions.foldl (addDivision p additions.length) (additions ++ [⟨some parent, (Outline.ofProgram p).data⟩])

/-! ## Folders -/

/-- The place of a known folder. -/
def placeOf? (b : Build) (folder : Path) : Option Nat := (b.folders.find? (·.1.same folder)).map (·.2)

/-- One more folder, which is known from then on. -/
def addFolder (b : Build) (parent : Nat) (folder : Path) : Build where
  additions := b.additions ++ [⟨some parent, Outline.emptyFolder folder⟩]
  folders := (folder, b.additions.length) :: b.folders

/-- The place of a folder, at most `steps` folders below the root.  Where it is not known, the folder is added below
the one above it; a folder outside the root is that of the root. -/
def ensure (root : Path) : Nat → Path → Build → Nat × Build
  | 0, _, b => ((b.placeOf? root).getD 0, b)
  | steps + 1, folder, b =>
      match b.placeOf? folder with
      | some place => (place, b)
      | none =>
          let top := (b.placeOf? root).getD 0
          if folder.startsWith root then
            let above := match folder.parent with
              | some parent => ensure root steps parent b
              | none => (top, b)
            (above.2.additions.length, above.2.addFolder above.1 folder)
          else (top, b)

/-- One more program, in its folder. -/
def addProgram (root : Path) (b : Build) (p : Program) : Build :=
  let folder := (Path.mk p.file).parent.getD root
  let ensured := ensure root (folder.components.length + 1) folder b
  { ensured.2 with additions := addFile p ensured.1 ensured.2.additions }

/-- The root, which is known and has no parent. -/
def start (root : Path) : Build where
  additions := [⟨none, (Outline.emptyRoot root.shown).data⟩]
  folders := [(root, 0)]

/-- The outline of programs below a root, node by node. -/
def ofPrograms (root : Path) (programs : List Program) : Build := programs.foldl (addProgram root) (start root)

end Build

end CobolAtlas
