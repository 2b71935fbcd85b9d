/-
# CobolAtlas.Calls.Graph -- the call graph of a repository

The graph is the list of all call edges in the order of the files, each with the file of its target where
the index knows one.  Its `Totals` count the edges and name the targets without a file, in upper case,
each once and in ascending order.
-/
import CobolAtlas.Calls.Index
import CobolAtlas.Program.Wire

namespace CobolAtlas

set_option autoImplicit false

/-- The call edges of a repository. -/
structure CallGraph where
  edges : List CallEdge

/-- Counts of a call graph. -/
structure CallGraph.Totals where
  edges : Nat
  resolved : Nat
  dynamic : Nat
  unresolvedTargets : List Text
deriving DecidableEq

namespace CallGraph

/-- The edges of all programs, resolved by an index. -/
def ofPrograms (programs : List Program) (index : ProgramIndex) : CallGraph :=
  ⟨(programs.flatMap (·.calls)).map fun e => { e with toFile := index.lookup e.toProgram }⟩

/-- The edges that leave a file. -/
def callsFrom (g : CallGraph) (file : Text) : List CallEdge := g.edges.filter (·.fromFile == file)

/-- The text in its place of an ascending list that has each text once. -/
def insertAscending (t : Text) : List Text → List Text
  | [] => [t]
  | u :: us => if t < u then t :: u :: us else if t = u then u :: us else u :: insertAscending t us

/-- The texts in ascending order, each once. -/
def ascending (ts : List Text) : List Text := ts.foldr insertAscending []

/-- The edges without a file. -/
def unresolved (g : CallGraph) : List CallEdge := g.edges.filter (·.toFile.isNone)

/-- The counts of the graph. -/
def totals (g : CallGraph) : Totals where
  edges := g.edges.length
  resolved := g.edges.countP (·.toFile.isSome)
  dynamic := g.edges.countP (·.dynamic)
  unresolvedTargets := ascending (g.unresolved.map fun e => Text.upper e.toProgram)

/-- The written form: an array of edges. -/
def toJson (g : CallGraph) : Json := Json.ofList CallEdge.toJson g.edges

/-- The graph that an array of edges writes. -/
def ofJson? (v : Json) : Option CallGraph := (Json.asList? CallEdge.ofJson? v).map CallGraph.mk

end CallGraph

end CobolAtlas
