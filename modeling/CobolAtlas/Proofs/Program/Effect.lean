/-
# CobolAtlas.Proofs.Program.Effect -- what an event can do to an assembly

What an event does depends on what is current: a section header on the division, an item on the data section, a
statement on the open paragraph and the division, a PROGRAM-ID on the names before it.  `Assembly.Effect` lists what can
happen, each with the condition under which it does, and a step is exactly that (`effect_iff`).  So what a step keeps is
shown by cases over `Effect`, and no such proof reads the conditions again.
-/
import CobolAtlas.Program.Assembly

namespace CobolAtlas

set_option autoImplicit false

/-- The event enters a data section, by itself or as a section header in the data division. -/
inductive Event.EntersDataSection (division : Option Text) (name : Text) : Event → Prop
  | dataSection : EntersDataSection division name (.dataSection name)
  | sectionHeader (line : LineNumber) (inData : division = some "DATA".toList) :
      EntersDataSection division name (.sectionHeader name line)

/-- The event opens a procedure section, by itself or as a section header in the procedure division. -/
inductive Event.OpensSection (division : Option Text) (name : Text) (line : LineNumber) : Event → Prop
  | procedureSection : OpensSection division name line (.procedureSection name line)
  | sectionHeader (inProcedure : division = some "PROCEDURE".toList) :
      OpensSection division name line (.sectionHeader name line)

namespace Assembly

variable {a b : Assembly} {e : Event}

/-- Is the event without effect? -/
def ignores (a : Assembly) : Event → Bool
  | .programId name => a.declaresId || (Name.clean name).isEmpty
  | .sectionHeader .. => a.division != some "DATA".toList && !a.inProcedure
  | .dataItem _ => a.dataSection.isNone
  | .statement _ => a.openParagraph.isNone && !a.inProcedure
  | _ => false

/-- The item goes to the sections of that name, and its line is seen. -/
def fileItem (current : Text) (item : DataItem) (a : Assembly) : Assembly :=
  observe item.line
    { a with dataSections := a.dataSections.map fun s =>
        if s.name = current then { s with items := s.items ++ [{ item with name := Name.clean item.name }] } else s }

/-- What an event can do, and when it does. -/
inductive Effect (a : Assembly) : Event → Assembly → Prop
  | ignored {e : Event} (without : a.ignores e = true) : Effect a e a
  | named (name id : Text) (cleaned : Name.clean name = id) (first : (a.declaresId || id.isEmpty) = false) :
      Effect a (.programId name) { a with id := id, declaresId := true }
  | counted (count : UInt32) : Effect a (.syntaxErrors count) { a with syntaxErrors := some count }
  | observed (line : LineNumber) : Effect a (.observe line) (a.observe line)
  | division (name : Text) (line : LineNumber) : Effect a (.division name line) (a.enterDivision name line)
  | dataSection {e : Event} (name : Text) (enters : e.EntersDataSection a.division name) :
      Effect a e (a.enterDataSection name)
  | procedureSection {e : Event} (name : Text) (line : LineNumber) (opens : e.OpensSection a.division name line) :
      Effect a e (a.enterProcedureSection name line)
  | item (item : DataItem) (current : Text) (inside : a.dataSection = some current) :
      Effect a (.dataItem item) (a.fileItem current item)
  | paragraph (name : Text) (line : LineNumber) : Effect a (.paragraph name line) (a.enterParagraph name line)
  /-- The first statement of the procedure division opens the entry paragraph. -/
  | entry (s : Statement) (noneOpen : a.openParagraph = none) (inProcedure : a.division = some "PROCEDURE".toList) :
      Effect a (.statement s) ((a.enterParagraph Program.entryParagraph s.line).appendStatement s)
  | statement (s : Statement) (p : Paragraph) (isOpen : a.openParagraph = some p) :
      Effect a (.statement s) (a.appendStatement s)

/-! ## Events with a condition -/

theorem addDataItem_of_some {current : Text} (inside : a.dataSection = some current) (item : DataItem) :
    a.addDataItem item = a.fileItem current item := by
  simp only [addDataItem, fileItem, inside]

theorem addStatement_of_some {p : Paragraph} (isOpen : a.openParagraph = some p) (s : Statement) :
    a.addStatement s = a.appendStatement s := by
  rw [addStatement, isOpen]
  rfl

theorem addStatement_of_none (noneOpen : a.openParagraph = none) (inProcedure : a.inProcedure = true) (s : Statement) :
    a.addStatement s = (a.enterParagraph Program.entryParagraph s.line).appendStatement s := by
  rw [addStatement, noneOpen, inProcedure]
  rfl

theorem enterSection_of_data (inData : a.division = some "DATA".toList) (name : Text) (line : LineNumber) :
    a.enterSection name line = a.enterDataSection name := if_pos inData

theorem enterSection_of_procedure (inProcedure : a.division = some "PROCEDURE".toList) (name : Text)
    (line : LineNumber) : a.enterSection name line = a.enterProcedureSection name line := by
  have notData : a.division ≠ some "DATA".toList := by rw [inProcedure]; decide
  rw [enterSection, if_neg notData, if_pos inProcedure]

theorem ignores_sectionHeader_iff {name : Text} {line : LineNumber} :
    a.ignores (.sectionHeader name line) = true ↔
      a.division ≠ some "DATA".toList ∧ a.division ≠ some "PROCEDURE".toList := by
  simp only [ignores, inProcedure, Bool.and_eq_true, bne_iff_ne, Bool.not_eq_true', beq_eq_false_iff_ne, ne_eq]

/-- An ignored event leaves the assembly as it was. -/
theorem step_of_ignores (without : a.ignores e = true) : a.step e = a := by
  cases e with
  | programId name => exact if_pos without
  | sectionHeader name line =>
    obtain ⟨notData, notProcedure⟩ := ignores_sectionHeader_iff.1 without
    rw [step, enterSection, if_neg notData, if_neg notProcedure]
  | dataItem item =>
    rw [step, addDataItem, Option.isNone_iff_eq_none.1 without]
  | statement s =>
    obtain ⟨noneOpen, elsewhere⟩ := Bool.and_eq_true_iff.1 without
    rw [Bool.not_eq_true'] at elsewhere
    rw [step, addStatement, elsewhere, Bool.and_false, if_neg Bool.false_ne_true, appendStatement,
      Option.isNone_iff_eq_none.1 noneOpen]
  | _ => cases without

/-! ## Steps -/

/-- A step does what is listed. -/
theorem step_effect (a : Assembly) (e : Event) : a.Effect e (a.step e) := by
  by_cases without : a.ignores e = true
  · rw [step_of_ignores without]
    exact .ignored without
  cases e with
  | programId name =>
    have named : a.step (.programId name) = { a with id := Name.clean name, declaresId := true } :=
      if_neg without
    rw [named]
    exact .named name (Name.clean name) rfl (Bool.not_eq_true _ ▸ without)
  | division name line => exact .division name line
  | sectionHeader name line =>
    by_cases inData : a.division = some "DATA".toList
    · rw [step, enterSection_of_data inData]
      exact .dataSection name (.sectionHeader line inData)
    · by_cases current : a.division = some "PROCEDURE".toList
      · rw [step, enterSection_of_procedure current]
        exact .procedureSection name line (.sectionHeader current)
      · exact absurd (ignores_sectionHeader_iff.2 ⟨inData, current⟩) without
  | dataSection name => exact .dataSection name .dataSection
  | procedureSection name line => exact .procedureSection name line .procedureSection
  | dataItem item =>
    obtain ⟨current, inside⟩ := Option.ne_none_iff_exists'.1 fun outside => without (Option.isNone_iff_eq_none.2 outside)
    rw [step, addDataItem_of_some inside]
    exact .item item current inside
  | paragraph name line => exact .paragraph name line
  | statement s =>
    cases isOpen : a.openParagraph with
    | some p =>
      rw [step, addStatement_of_some isOpen]
      exact .statement s p isOpen
    | none =>
      have inProcedure : a.inProcedure = true := by simpa [ignores, isOpen] using without
      rw [step, addStatement_of_none isOpen inProcedure]
      exact .entry s isOpen (beq_iff_eq.1 inProcedure)
  | observe line => exact .observed line
  | syntaxErrors count => exact .counted count

/-- What is listed is what a step does. -/
theorem Effect.step_eq (effect : a.Effect e b) : a.step e = b := by
  cases effect with
  | ignored without => exact step_of_ignores without
  | named name id cleaned first =>
    subst cleaned
    exact if_neg (Bool.not_eq_true _ ▸ first)
  | dataSection name enters =>
    cases enters with
    | dataSection => rfl
    | sectionHeader line inData => exact enterSection_of_data inData name line
  | procedureSection name line opens =>
    cases opens with
    | procedureSection => rfl
    | sectionHeader inProcedure => exact enterSection_of_procedure inProcedure name line
  | item item current inside => exact addDataItem_of_some inside item
  | entry s noneOpen inProcedure => exact addStatement_of_none noneOpen (beq_iff_eq.2 inProcedure) s
  | statement s p isOpen => exact addStatement_of_some isOpen s
  | _ => rfl

theorem effect_iff : a.Effect e b ↔ a.step e = b :=
  ⟨Effect.step_eq, fun stepped => stepped ▸ step_effect a e⟩

end Assembly

end CobolAtlas
