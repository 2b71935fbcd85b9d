/-
# CobolAtlas.Proofs.Program.Wire -- programs and call graphs come back from their written form

What is written of a program is all of it but whether its name was declared and its call edges
(`Program.written`); of a call graph every edge is written whole.  Each record comes back from its value
(`ofJson?_toJson`): the names of its fields differ, a field that is left out is read as its absence, and lists
come back element by element.  The values are `Plain`, so the printed text is read again
(`ofJson?_parse?_pretty`), and its bytes are: `ofContent?_fileContent`.
-/
import CobolAtlas.Proofs.Json.RoundTrip
import CobolAtlas.Proofs.Text.Utf8
import CobolAtlas.Repository.Output

namespace CobolAtlas

set_option autoImplicit false

namespace Json

/-! ## Fields -/

section Fields

variable {α : Type} {encode : α → Json} {decode : Json → Option α}

theorem asText?_ofText (t : Text) : asText? (ofText t) = some t := rfl

theorem asUInt32?_ofUInt32 (n : UInt32) : asUInt32? (ofUInt32 n) = some n := Text.digitsUInt32?_ofNat n

/-- A value that is no null comes back from a field that may be null. -/
theorem asOption?_of_some {v : Json} {a : α} (notNull : v ≠ .null) (decodes : decode v = some a) :
    asOption? decode v = some (some a) := by
  rw [asOption?, decodes]
  · rfl
  · exact notNull

theorem asOption?_ofUInt32 (n : UInt32) : asOption? asUInt32? (ofUInt32 n) = some (some n) :=
  asOption?_of_some nofun (asUInt32?_ofUInt32 n)

theorem asOption?_ofOption_text (o : Option Text) : asOption? asText? (ofOption ofText o) = some o := by
  cases o <;> rfl

/-- A list comes back where its elements do. -/
theorem mapM_map_eq_some {β : Type} {write : α → β} {read : β → Option α} (reads : ∀ a, read (write a) = some a)
    (as : List α) : (as.map write).mapM read = some as := by
  induction as with
  | nil => rfl
  | cons a as ih =>
    simp only [List.map_cons, List.mapM_cons, reads, ih, Option.bind_eq_bind, Option.bind_some]
    rfl

theorem asList?_ofList (decodes : ∀ a, decode (encode a) = some a) (as : List α) :
    asList? decode (ofList encode as) = some as := mapM_map_eq_some decodes as

end Fields

/-! ## Plain values -/

section PlainMembers

variable {α : Type}

/-- Members of an object that can be read again. -/
def PlainMembers (ms : List (Option Text × Json)) : Prop := ∀ m ∈ ms, m.1 ≠ none ∧ Plain m.2

theorem plain_object {ms : List (Option Text × Json)} (plain : PlainMembers ms) : Plain (.object ms) :=
  .object (fun m member => (plain m member).1) fun m member => (plain m member).2

@[simp] theorem plainMembers_append {ms ns : List (Option Text × Json)} :
    PlainMembers (ms ++ ns) ↔ PlainMembers ms ∧ PlainMembers ns := List.forall_mem_append

@[simp] theorem plainMembers_member {name : String} {v : Json} : PlainMembers (member name v) ↔ Plain v := by
  simp [PlainMembers, member]

@[simp] theorem plainMembers_nil : PlainMembers [] := nofun

theorem plainMembers_optional (name : String) {encode : α → Json} (plain : ∀ a, Plain (encode a)) (o : Option α) :
    PlainMembers (Json.optional name encode o) := by
  cases o with
  | none => exact nofun
  | some a => exact plainMembers_member.2 (plain a)

theorem plain_ofList {encode : α → Json} (plain : ∀ a, Plain (encode a)) (as : List α) : Plain (ofList encode as) :=
  .array fun e member => by
    obtain ⟨a, -, rfl⟩ := List.mem_map.1 member
    exact plain a

@[simp] theorem plain_bool (b : Bool) : Plain (.bool b) := .bool b

@[simp] theorem plain_ofText (t : Text) : Plain (ofText t) := .string t

@[simp] theorem plain_ofUInt32 (n : UInt32) : Plain (ofUInt32 n) := .number n.toNat

theorem plain_ofOption {encode : α → Json} (plain : ∀ a, Plain (encode a)) (o : Option α) :
    Plain (ofOption encode o) := by
  cases o with
  | none => exact .null
  | some a => exact plain a

end PlainMembers

end Json

open Json

/-! ## Records of the procedure division -/

theorem StatementKind.ofJson?_toJson (k : StatementKind) : StatementKind.ofJson? k.toJson = some k := by
  cases k <;> rfl

theorem Statement.plain_toJson (s : Statement) : Plain s.toJson := by
  have dynamic : PlainMembers (if s.dynamic then member "dynamic" (.bool true) else []) := by
    split <;> simp
  exact plain_object (by simp [StatementKind.toJson, plainMembers_optional, dynamic])

theorem Statement.ofJson?_toJson (s : Statement) : Statement.ofJson? s.toJson = some s := by
  obtain ⟨kind, target, thru, line, dynamic⟩ := s
  have fields : fields? (["type", "target", "thru", "line", "dynamic"].map String.toList) 4
      (Statement.toJson ⟨kind, target, thru, line, dynamic⟩) =
        some [some kind.toJson, some (ofText target), thru.map ofText, some (ofUInt32 line),
          if dynamic then some (.bool true) else none] := by
    cases thru <;> cases dynamic <;> rfl
  simp only [Statement.ofJson?, fields, Option.bind_eq_bind, Option.bind_some, need?,
    StatementKind.ofJson?_toJson, asText?_ofText, asUInt32?_ofUInt32]
  cases thru <;> cases dynamic <;> rfl

theorem Paragraph.plain_toJson (p : Paragraph) : Plain p.toJson :=
  plain_object (by simp [plainMembers_optional, plain_ofList Statement.plain_toJson])

theorem Paragraph.ofJson?_toJson (p : Paragraph) : Paragraph.ofJson? p.toJson = some p := by
  obtain ⟨name, inSection, line, endLine, statements⟩ := p
  have fields : fields? (["name", "section", "line", "end_line", "statements"].map String.toList) 5
      (Paragraph.toJson ⟨name, inSection, line, endLine, statements⟩) =
        some [some (ofText name), inSection.map ofText, some (ofUInt32 line), some (ofUInt32 endLine),
          some (ofList Statement.toJson statements)] := by
    cases inSection <;> rfl
  simp only [Paragraph.ofJson?, fields, Option.bind_eq_bind, Option.bind_some, need?, asText?_ofText,
    asUInt32?_ofUInt32, asList?_ofList Statement.ofJson?_toJson]
  cases inSection <;> rfl

theorem ProcedureSection.plain_toJson (s : ProcedureSection) : Plain s.toJson :=
  plain_object (by simp [plain_ofList plain_ofText])

theorem ProcedureSection.ofJson?_toJson (s : ProcedureSection) : ProcedureSection.ofJson? s.toJson = some s := by
  have fields : fields? (["name", "line", "paragraphs"].map String.toList) 3 s.toJson =
      some [some (ofText s.name), some (ofUInt32 s.line), some (ofList ofText s.paragraphs)] := rfl
  simp only [ProcedureSection.ofJson?, fields, Option.bind_eq_bind, Option.bind_some, need?, asText?_ofText,
    asUInt32?_ofUInt32, asList?_ofList asText?_ofText]

/-! ## Records of the data division -/

theorem DataItem.plain_toJson (i : DataItem) : Plain i.toJson :=
  plain_object (by simp [plain_ofOption plain_ofText])

theorem DataItem.ofJson?_toJson (i : DataItem) : DataItem.ofJson? i.toJson = some i := by
  have fields : fields? (["level", "name", "pic", "line"].map String.toList) 4 i.toJson =
      some [some (ofUInt32 i.level), some (ofText i.name), some (ofOption ofText i.picture), some (ofUInt32 i.line)] :=
    rfl
  simp only [DataItem.ofJson?, fields, Option.bind_eq_bind, Option.bind_some, need?, orElse?, asText?_ofText,
    asUInt32?_ofUInt32, asOption?_ofOption_text]

theorem DataSection.plain_toJson (s : DataSection) : Plain s.toJson :=
  plain_object (by simp [plain_ofList DataItem.plain_toJson])

theorem DataSection.ofJson?_toJson (s : DataSection) : DataSection.ofJson? s.toJson = some s := by
  have fields : fields? (["name", "items"].map String.toList) 2 s.toJson =
      some [some (ofText s.name), some (ofList DataItem.toJson s.items)] := rfl
  simp only [DataSection.ofJson?, fields, Option.bind_eq_bind, Option.bind_some, need?, asText?_ofText,
    asList?_ofList DataItem.ofJson?_toJson]

/-! ## Programs and call edges -/

theorem CallEdge.plain_toJson (e : CallEdge) : Plain e.toJson :=
  plain_object (by simp [plain_ofOption plain_ofText])

theorem CallEdge.ofJson?_toJson (e : CallEdge) : CallEdge.ofJson? e.toJson = some e := by
  have fields : fields? (["from_file", "from_paragraph", "line", "to_program", "to_file", "dynamic"].map
      String.toList) 5 e.toJson =
        some [some (ofText e.fromFile), some (ofText e.fromParagraph), some (ofUInt32 e.line),
          some (ofText e.toProgram), some (ofOption ofText e.toFile), some (.bool e.dynamic)] := rfl
  simp only [CallEdge.ofJson?, fields, Option.bind_eq_bind, Option.bind_some, need?, orElse?, asText?_ofText,
    asUInt32?_ofUInt32, asOption?_ofOption_text, asBool?]

theorem CallGraph.plain_toJson (g : CallGraph) : Plain g.toJson := plain_ofList CallEdge.plain_toJson g.edges

theorem CallGraph.asList?_toJson (g : CallGraph) : asList? CallEdge.ofJson? g.toJson = some g.edges :=
  asList?_ofList CallEdge.ofJson?_toJson g.edges

/-- What is written of a program: not whether its name was declared, and not its call edges. -/
def Program.written (p : Program) : Program := { p with declaresId := false, calls := [] }

theorem Program.plain_toJson (p : Program) : Plain p.toJson :=
  plain_object (by
    simp [plainMembers_optional, plain_ofList plain_ofText, plain_ofList DataSection.plain_toJson,
      plain_ofList ProcedureSection.plain_toJson, plain_ofList Paragraph.plain_toJson])

theorem Program.ofJson?_toJson (p : Program) : Program.ofJson? p.toJson = some p.written := by
  obtain ⟨file, id, backend, divisions, dataSections, sections, paragraphs, syntaxErrors, declaresId, calls⟩ := p
  have fields : fields? (["file", "program_id", "backend", "divisions", "data_sections", "sections", "paragraphs",
      "syntax_errors"].map String.toList) 7 (Program.toJson
        ⟨file, id, backend, divisions, dataSections, sections, paragraphs, syntaxErrors, declaresId, calls⟩) =
        some [some (ofText file), some (ofText id), some (ofText backend), some (ofList ofText divisions),
          some (ofList DataSection.toJson dataSections), some (ofList ProcedureSection.toJson sections),
          some (ofList Paragraph.toJson paragraphs), syntaxErrors.map ofUInt32] := by
    cases syntaxErrors <;> rfl
  simp only [Program.ofJson?, fields, Option.bind_eq_bind, Option.bind_some, need?, asText?_ofText,
    asList?_ofList asText?_ofText, asList?_ofList DataSection.ofJson?_toJson,
    asList?_ofList ProcedureSection.ofJson?_toJson, asList?_ofList Paragraph.ofJson?_toJson]
  cases syntaxErrors with
  | none => rfl
  | some n => simp only [Option.map_some, orElse?, asOption?_ofUInt32, Option.bind_some]; rfl

/-- **Programs and call edges are read from what is printed of them.**  A program comes back without its call
edges and as one whose name is not declared; the edges of a call graph all come back as they were. -/
theorem ofJson?_parse?_pretty (p : Program) (g : CallGraph) :
    (parse? (pretty p.toJson)).bind Program.ofJson? = some { p with declaresId := false, calls := [] } ∧
      (parse? (pretty g.toJson)).bind (asList? CallEdge.ofJson?) = some g.edges := by
  constructor
  · rw [parse?_pretty p.plain_toJson, Option.bind_some, Program.ofJson?_toJson]
    rfl
  · rw [parse?_pretty g.plain_toJson, Option.bind_some, CallGraph.asList?_toJson]

/-- The program in the content of a structure file. -/
def Program.ofContent? (content : Bytes) : Option Program :=
  ((Utf8.decode? content).bind Json.parse?).bind Program.ofJson?

/-- **A program comes back from its structure file.** -/
theorem Program.ofContent?_fileContent (p : Program) : Program.ofContent? p.toJson.fileContent = some p.written := by
  rw [ofContent?, fileContent, Utf8.decode?_encode, Option.bind_some, parse?_pretty p.plain_toJson, Option.bind_some,
    ofJson?_toJson]

end CobolAtlas
