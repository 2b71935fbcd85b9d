/-
# CobolAtlas.Proofs.Outline.Wire -- what a nested outline shows

The nested form of an outline is an object for its node, with the forms of its children in an array.  Members that
would be empty are left out, so a member is looked up by its name (`Json.member?`), and `Json.ShowsNode` says what is
found under each name.
-/
import CobolAtlas.Outline.Wire

namespace CobolAtlas

set_option autoImplicit false

namespace Json

/-! ## Members -/

/-- The value of the first member of that name. -/
def member? (name : String) : Json → Option Json
  | .object members => members.lookup (some name.toList)
  | _ => none

/-- Some members of an object, each left out where there is no value. -/
def present (members : List (String × Option Json)) : List (Option Text × Json) :=
  members.flatMap fun m => Json.optional m.1 id m.2

theorem lookup_optional (name other : String) (v : Option Json) :
    (Json.optional other id v).lookup (some name.toList) = if name = other then v else none := by
  have sameKey : (some name.toList == some other.toList) = decide (name = other) := by
    rw [Bool.eq_iff_iff, beq_iff_eq, Option.some.injEq, String.toList_inj, decide_eq_true_iff]
  cases v with
  | none => exact (ite_self none).symm
  | some v =>
    rw [Json.optional, member, List.lookup_cons, sameKey]
    by_cases same : name = other <;> simp [same]

/-- Where names differ, what is left out is not found. -/
theorem lookup_present {members : List (String × Option Json)} (distinct : (members.map (·.1)).Nodup) (name : String) :
    (present members).lookup (some name.toList) = (members.lookup name).join := by
  induction members with
  | nil => rfl
  | cons m members ih =>
    obtain ⟨other, v⟩ := m
    obtain ⟨fresh, others⟩ := List.nodup_cons.1 distinct
    rw [present, List.flatMap_cons, List.lookup_append, lookup_optional]
    by_cases same : name = other
    · subst same
      have absent : members.lookup name = none := by
        rw [List.lookup_eq_none_iff]
        intro m member
        exact bne_iff_ne.2 fun isName => fresh (List.mem_map.2 ⟨m, member, isName.symm⟩)
      have later := ih others
      rw [absent] at later
      rw [if_pos rfl, List.lookup_cons, beq_self_eq_true]
      exact (congrArg v.or later).trans Option.or_none
    · rw [if_neg same, Option.none_or, List.lookup_cons, beq_false_of_ne same]
      exact ih others

/-- The nested form of a node has the node's fields and the forms of what stands below it; a file names its language. -/
structure ShowsNode (v : Json) (d : NodeData) (below : List Json) : Prop where
  name : v.member? "name" = some (ofText d.name)
  kind : v.member? "kind" = some (ofText d.kind.word)
  language : v.member? "language" = if d.kind.isFile then some (ofText "cobol".toList) else none
  program : v.member? "program" = d.program.map ofText
  startLine : v.member? "startLine" = some (ofUInt32 d.startLine)
  endLine : v.member? "endLine" = some (ofUInt32 d.endLine)
  path : v.member? "path" = some (ofText d.path)
  calls : v.member? "calls" = if d.calls.isEmpty then none else some (ofList ofText d.calls)
  children : v.member? "children" = if below.isEmpty then none else some (.array below)

end Json

namespace Outline

open Json

theorem allToJson_eq (os : List Outline) : allToJson os = os.map toJson := by
  induction os with
  | nil => rfl
  | cons o os ih => rw [allToJson, ih, List.map_cons]

/-- The members of a nested outline, by name. -/
def members (o : Outline) : List (String × Option Json) :=
  [("calls", if o.data.calls.isEmpty then none else some (ofList ofText o.data.calls)),
    ("children", if o.children.isEmpty then none else some (ofList toJson o.children)),
    ("endLine", some (ofUInt32 o.data.endLine)),
    ("kind", some (ofText o.data.kind.word)),
    ("language", if o.data.kind.isFile then some (ofText "cobol".toList) else none),
    ("name", some (ofText o.data.name)),
    ("path", some (ofText o.data.path)),
    ("program", o.data.program.map ofText),
    ("startLine", some (ofUInt32 o.data.startLine))]

theorem toJson_eq (o : Outline) : o.toJson = .object (present o.members) := by
  obtain ⟨data, children⟩ := o
  have calls : nonEmpty "calls" (data.calls.map ofText) =
      Json.optional "calls" id (if data.calls.isEmpty then none else some (ofList ofText data.calls)) := by
    cases data.calls <;> rfl
  have below : nonEmpty "children" (children.map toJson) =
      Json.optional "children" id (if children.isEmpty then none else some (ofList toJson children)) := by
    cases children <;> rfl
  have program : Json.optional "program" ofText data.program = Json.optional "program" id (data.program.map ofText) := by
    cases data.program <;> rfl
  have language : (if data.kind.isFile then member "language" (ofText "cobol".toList) else []) =
      Json.optional "language" id (if data.kind.isFile then some (ofText "cobol".toList) else none) := by
    cases data.kind.isFile <;> rfl
  have always : ∀ (name : String) (v : Json), member name v = Json.optional name id (some v) := fun _ _ => rfl
  rw [toJson, allToJson_eq, calls, below, program, language]
  simp only [present, members, always, List.flatMap_cons, List.flatMap_nil, List.append_nil, List.append_assoc]
  rfl

/-- An outline shows its node above the forms of its children. -/
theorem toJson_showsNode (o : Outline) : o.toJson.ShowsNode o.data (o.children.map toJson) := by
  have distinct : (o.members.map (·.1)).Nodup := by
    show ["calls", "children", "endLine", "kind", "language", "name", "path", "program", "startLine"].Nodup
    decide
  have shown : ∀ name, o.toJson.member? name = (o.members.lookup name).join := fun name => by
    rw [toJson_eq]
    exact lookup_present distinct name
  have children : o.toJson.member? "children" = if o.children.isEmpty then none else some (ofList toJson o.children) :=
    shown _
  rw [← List.isEmpty_map (f := toJson)] at children
  exact ⟨shown _, shown _, shown _, shown _, shown _, shown _, shown _, shown _, children⟩

end Outline

end CobolAtlas
