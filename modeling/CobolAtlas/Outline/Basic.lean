/-
# CobolAtlas.Outline.Basic -- outlines as trees

An `Outline` is a tree of folders, files, divisions, sections and paragraphs.  Its nodes are listed
parents first (`preorder`), and a path is found at the first node of that list that carries it.
-/
import CobolAtlas.Path.Basic
import CobolAtlas.Program.Basic

namespace CobolAtlas

set_option autoImplicit false

/-- What a node of an outline stands for; a file has the extension of its name. -/
inductive NodeKind where
  | folder
  | file (extension : Text)
  | division
  | sectionNode
  | paragraph
deriving DecidableEq

namespace NodeKind

/-- The word for the kind. -/
def word : NodeKind → Text
  | .folder => "folder".toList
  | .file _ => "file".toList
  | .division => "division".toList
  | .sectionNode => "section".toList
  | .paragraph => "paragraph".toList

/-- Is it a file? -/
def isFile : NodeKind → Bool
  | .file _ => true
  | _ => false

end NodeKind

/-- One node of an outline: `program` for files, `calls` for paragraphs. -/
structure NodeData where
  name : Text
  kind : NodeKind
  program : Option Text
  startLine : LineNumber
  endLine : LineNumber
  path : Text
  calls : List Text
deriving DecidableEq

/-- A node with a name, a kind and a path, on no lines. -/
def NodeData.plain (name : Text) (kind : NodeKind) (path : Text) : NodeData :=
  ⟨name, kind, none, 0, 0, path, []⟩

/-- A node and the outlines below it. -/
inductive Outline where
  | node (data : NodeData) (children : List Outline)

namespace Outline

def data : Outline → NodeData
  | node data _ => data

def children : Outline → List Outline
  | node _ children => children

mutual

/-- The outline and all below it, parents first. -/
def preorder : Outline → List Outline
  | node data children => node data children :: allPreorder children

/-- The outlines and all below them, in order. -/
def allPreorder : List Outline → List Outline
  | [] => []
  | o :: os => preorder o ++ allPreorder os

end

/-- The first outline that carries the path. -/
def find? (o : Outline) (path : Text) : Option Outline := o.preorder.find? (·.data.path == path)

end Outline

end CobolAtlas
