/-
# CobolAtlas.Syntax.Tree -- a program read from a syntax tree

A syntax tree is visited in document order, parents before children.  A node with a role reports an event;
program names and headers are not entered, all else is, and a leaf reports the line it ends on.  A data
description takes its level, name and picture from the nodes below it that belong to no inner description
(`DataFields`).  `Node.errorCount` counts the error nodes that the visit reaches.
-/
import CobolAtlas.Program.Assembly
import CobolAtlas.Source.Picture
import CobolAtlas.Source.Statement
import CobolAtlas.Syntax.Profile
import CobolAtlas.Text.Number

namespace CobolAtlas

set_option autoImplicit false

/-- A node of a syntax tree, with the source text and the lines it spans. -/
inductive Node where
  | mk (kind text : Text) (startLine endLine : LineNumber) (isError : Bool) (children : List Node)

namespace Node

def kind : Node → Text
  | mk kind .. => kind

def text : Node → Text
  | mk _ text .. => text

def startLine : Node → LineNumber
  | mk _ _ line .. => line

def endLine : Node → LineNumber
  | mk _ _ _ line .. => line

def isError : Node → Bool
  | mk _ _ _ _ isError _ => isError

def children : Node → List Node
  | mk _ _ _ _ _ children => children

end Node

/-! ## Data descriptions -/

/-- What has been found of a data description. -/
structure DataFields where
  level : Option UInt32
  name : Option Text
  picture : Option Text

namespace DataFields

/-- Nothing found. -/
def none : DataFields := ⟨.none, .none, .none⟩

/-- A level number counts if none was found before and it is a number. -/
def addLevel (text : Text) (f : DataFields) : DataFields :=
  { f with level := f.level.or (Text.unsigned? (Text.trim text)) }

/-- A name counts if none was found before. -/
def addName (text : Text) (f : DataFields) : DataFields :=
  { f with name := f.name.or (some (Name.clean text)) }

/-- A picture clause counts if none was found before and it has a picture. -/
def addPicture (text : Text) (f : DataFields) : DataFields :=
  { f with picture := f.picture.or (Source.picture? text) }

/-- The description on a line, if it has a level; without a name it is a filler. -/
def item? (line : LineNumber) (f : DataFields) : Option DataItem :=
  f.level.map fun level => ⟨level, f.name.getD "FILLER".toList, f.picture, line⟩

end DataFields

namespace Node

mutual

/-- What a node below a description adds to it. -/
def addFields (profile : Profile) (f : DataFields) : Node → DataFields
  | mk kind text _ _ _ children =>
      match profile.field? kind with
      | some .dataItem => f
      | some .levelNumber => f.addLevel text
      | some .dataName => f.addName text
      | some .picture => f.addPicture text
      | none => addAllFields profile f children

/-- What nodes add to a description, one after another. -/
def addAllFields (profile : Profile) (f : DataFields) : List Node → DataFields
  | [] => f
  | node :: nodes => addAllFields profile (addFields profile f node) nodes

end

/-- The data item that a description node stands for. -/
def dataItem? (profile : Profile) (node : Node) : Option DataItem :=
  (addAllFields profile .none node.children).item? node.startLine

/-! ## The visit -/

/-- The statement that a node's text makes, as its role tells. -/
def statement? (role : Role) (text : Text) (line : LineNumber) : Option Statement :=
  match role with
  | .call => (Source.callTarget? text).map fun t => ⟨.call, t.program, none, line, t.dynamic⟩
  | .perform => (Source.performRange? text).map fun r => ⟨.perform, r.first, r.last, line, false⟩
  | .goTo => (Source.goToTarget? text).map fun target => ⟨.goTo, target, none, line, false⟩
  | _ => none

/-- What a node itself reports. -/
def ownEvents (profile : Profile) (node : Node) : List Event :=
  match profile.role? node.kind with
  | some .programName => [.programId node.text]
  | some (.division name) => [.division name node.startLine]
  | some (.dataSection name) => [.dataSection name]
  | some .dataItem => ((node.dataItem? profile).map .dataItem).toList
  | some .sectionHeader => [.procedureSection (Name.ofHeader node.text) node.startLine]
  | some .paragraphHeader => [.paragraph (Name.ofHeader node.text) node.startLine]
  | some role => ((statement? role node.text node.startLine).map .statement).toList
  | none => []

/-- Is the visit to end at nodes of this kind? -/
def isClosed (profile : Profile) (kind : Text) : Bool :=
  match profile.role? kind with
  | some .programName | some .sectionHeader | some .paragraphHeader => true
  | _ => false

mutual

/-- What the visit of a node reports. -/
def events (profile : Profile) : Node → List Event
  | mk kind text startLine endLine isError children =>
      ownEvents profile (mk kind text startLine endLine isError children) ++
        if isClosed profile kind then []
        else if children.isEmpty then [.observe endLine]
        else allEvents profile children

/-- What the visits of nodes report, one after another. -/
def allEvents (profile : Profile) : List Node → List Event
  | [] => []
  | node :: nodes => events profile node ++ allEvents profile nodes

end

mutual

/-- The error nodes that the visit of a node reaches. -/
def errorCount (profile : Profile) : Node → Nat
  | mk kind _ _ _ isError children =>
      (if isError then 1 else 0) + if isClosed profile kind then 0 else allErrorCount profile children

/-- The error nodes that the visits of nodes reach. -/
def allErrorCount (profile : Profile) : List Node → Nat
  | [] => 0
  | node :: nodes => errorCount profile node + allErrorCount profile nodes

end

end Node

/-- The program of a syntax tree, with the count of its errors. -/
def Program.ofTree (profile : Profile) (path : Path) (backend : Text) (tree : Node) : Program :=
  Program.ofEvents path backend
    (tree.events profile ++ [.syntaxErrors (UInt32.ofNat (tree.errorCount profile))])

end CobolAtlas
