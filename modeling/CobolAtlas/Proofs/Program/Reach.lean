/-
# CobolAtlas.Proofs.Program.Reach -- how far each paragraph reaches

An assembly has one last line for all paragraphs.  Some events set it and others raise it, and it counts when the
open paragraph is closed.  `History.reaches` reads the same off the events alone: each paragraph begins where an event
opens it (`opens?`) and ends at the last of the lines that are seen (`seen?`) from there until an event closes it
(`closes`).  No other line counts.

`Assembly.reachesSeeing` is what stands between the two: the paragraphs of an assembly, of which the open one is still to
see some lines.  An event adds to it what the event opens (`step_reaches`), hence so does a run (`run_reaches`).  The
main statement is `ofEvents_reaches`.
-/
import CobolAtlas.Proofs.Program.History
import CobolAtlas.Proofs.Program.LineNumber

namespace CobolAtlas

set_option autoImplicit false

/-- The name of a paragraph, the line with which it opens and the last one that it reaches. -/
structure Reach where
  name : Text
  line : LineNumber
  endLine : LineNumber
deriving DecidableEq

def Paragraph.reach (p : Paragraph) : Reach := ⟨p.name, p.line, p.endLine⟩

namespace History

/-! ## Paragraphs in the events -/

/-- The name and the line of the paragraph that the event opens. -/
def opens? (before : History) : Event → Option (Text × LineNumber)
  | .paragraph name line => some (Name.clean name, line)
  | .statement s =>
      if before.paragraphOpen then none
      else if before.inProcedure then some (Program.entryParagraph, s.line) else none
  | _ => none

/-- Does the event close the open paragraph? -/
def closes (before : History) : Event → Bool
  | .division .. => true
  | .procedureSection .. => true
  | .sectionHeader .. => before.inProcedure
  | .paragraph .. => true
  | _ => false

/-- The line that is seen: an observed one, or that of a statement or an item which is accepted. -/
def seen? (before : History) : Event → Option LineNumber
  | .observe line => some line
  | .statement s => if before.paragraphOpen || before.inProcedure then some s.line else none
  | .dataItem item => if before.dataSection.isSome then some item.line else none
  | _ => none

/-- Is the event without effect? -/
def drops (before : History) : Event → Bool
  | .statement _ => !(before.paragraphOpen || before.inProcedure)
  | .dataItem _ => before.dataSection.isNone
  | .sectionHeader .. => before.division != some "DATA".toList && !before.inProcedure
  | .programId name => (before.gather namesDeclared).head?.isSome || (Name.clean name).isEmpty
  | _ => false

/-- The lines that are seen until an event closes the open paragraph. -/
def seenUntilClosed (before : History) : List Event → List LineNumber
  | [] => []
  | e :: later => if before.closes e then [] else (before.seen? e).toList ++ seenUntilClosed (e :: before) later

/-- The paragraphs that open, each up to the last line that is seen until it is closed. -/
def reaches (before : History) : List Event → List Reach
  | [] => []
  | e :: later =>
      ((before.opens? e).map fun (name, line) =>
        ⟨name, line, (seenUntilClosed (e :: before) later).foldl max line⟩).toList ++ reaches (e :: before) later

section

variable {h : History} {e : Event} {later : List Event}

theorem reaches_of_silent (silent : h.opens? e = none) : h.reaches (e :: later) = reaches (e :: h) later := by
  rw [reaches, silent]
  rfl

theorem seenUntilClosed_of_closes (closes : h.closes e = true) : h.seenUntilClosed (e :: later) = [] := by
  rw [seenUntilClosed, if_pos closes]

theorem seenUntilClosed_of_open (stays : h.closes e = false) :
    h.seenUntilClosed (e :: later) = (h.seen? e).toList ++ seenUntilClosed (e :: h) later := by
  rw [seenUntilClosed, if_neg (by simp [stays])]

/-- What follows after the event that closes is not seen. -/
theorem seenUntilClosed_append {within after : List Event}
    (closes : ∀ c ∈ after.head?, closes (within.reverse ++ h) c = true) :
    h.seenUntilClosed (within ++ after) = h.seenUntilClosed within := by
  induction within generalizing h with
  | nil =>
    cases after with
    | nil => rfl
    | cons c after => exact seenUntilClosed_of_closes (closes c rfl)
  | cons e within ih =>
    rw [List.cons_append, seenUntilClosed, seenUntilClosed, ih]
    rwa [List.reverse_cons, List.append_assoc] at closes

/-- Paragraphs that open later stand after those of before. -/
theorem drop_reaches_append (before after : List Event) :
    (h.reaches (before ++ after)).drop (h.reaches before).length = reaches (before.reverse ++ h) after := by
  induction before generalizing h with
  | nil => rfl
  | cons e before ih =>
    have rest := ih (h := e :: h)
    rw [List.cons_append, reaches, reaches, List.reverse_cons, List.append_assoc]
    cases h.opens? e with
    | none => exact rest
    | some opened => exact rest

end

end History

namespace Assembly

open History

variable {a : Assembly} {h : History} {stem : Text}

/-! ## Paragraphs in an assembly -/

/-- The paragraphs so far, of which the open one is still to see the lines. -/
def reachesSeeing (a : Assembly) (lines : List LineNumber) : List Reach :=
  a.closedParagraphs.map Paragraph.reach ++
    (a.openParagraph.map fun p => ⟨p.name, p.line, lines.foldl max (max p.endLine a.lastLine)⟩).toList

/-- Where no paragraph is open it does not matter what is seen. -/
theorem reachesSeeing_of_none (noneOpen : a.openParagraph = none) (lines : List LineNumber) :
    a.reachesSeeing lines = a.closedParagraphs.map Paragraph.reach := by
  rw [reachesSeeing, noneOpen, Option.map_none, Option.toList_none, List.append_nil]

theorem closeParagraph_reaches (a : Assembly) :
    a.closeParagraph.closedParagraphs.map Paragraph.reach = a.reachesSeeing [] := by
  cases isOpen : a.openParagraph with
  | none => rw [closeParagraph_of_none isOpen, reachesSeeing_of_none isOpen]
  | some p =>
    rw [closeParagraph_of_some isOpen, reachesSeeing, isOpen, List.map_append]
    rfl

/-- A line that is seen is the first of those still to see. -/
theorem observe_reaches (a : Assembly) (line : LineNumber) (lines : List LineNumber) :
    (a.observe line).reachesSeeing lines = a.reachesSeeing (line :: lines) := by
  simp only [reachesSeeing, observe, List.foldl_cons, LineNumber.max_assoc]

theorem appendStatement_reaches (a : Assembly) (s : Statement) (lines : List LineNumber) :
    (a.appendStatement s).reachesSeeing lines = a.reachesSeeing (s.line :: lines) := by
  cases isOpen : a.openParagraph with
  | none => rw [appendStatement, isOpen, reachesSeeing_of_none isOpen, reachesSeeing_of_none isOpen]
  | some p =>
    rw [← observe_reaches]
    simp only [appendStatement, isOpen, reachesSeeing, observe, Option.map_some]

/-- A paragraph that opens begins and ends with its line, as far as it is known. -/
theorem enterParagraph_reaches (a : Assembly) (name : Text) (line : LineNumber) (lines : List LineNumber) :
    (a.enterParagraph name line).reachesSeeing lines =
      a.reachesSeeing [] ++ [⟨Name.clean name, line, lines.foldl max line⟩] := by
  rw [← closeParagraph_reaches]
  simp only [reachesSeeing, enterParagraph, Option.map_some, Option.toList_some, LineNumber.max_self]

/-! ## Steps -/

/-- An event that does nothing to paragraphs. -/
theorem reaches_of_kept {b : Assembly} {e : Event} {later : List Event}
    (closed : b.closedParagraphs = a.closedParagraphs) (opened : b.openParagraph = a.openParagraph)
    (last : b.lastLine = a.lastLine) (stays : h.closes e = false) (unseen : h.seen? e = none)
    (silent : h.opens? e = none) :
    b.reachesSeeing (seenUntilClosed (e :: h) later) ++ reaches (e :: h) later =
      a.reachesSeeing (h.seenUntilClosed (e :: later)) ++ h.reaches (e :: later) := by
  rw [reaches_of_silent silent, seenUntilClosed_of_open stays, unseen, reachesSeeing, reachesSeeing, closed, opened, last]
  rfl

/-- An event that closes the open paragraph and opens none. -/
theorem reaches_of_closed {b : Assembly} {e : Event} {later : List Event}
    (closed : b.closedParagraphs = a.closeParagraph.closedParagraphs) (noneOpen : b.openParagraph = none)
    (closes : h.closes e = true) (silent : h.opens? e = none) :
    b.reachesSeeing (seenUntilClosed (e :: h) later) ++ reaches (e :: h) later =
      a.reachesSeeing (h.seenUntilClosed (e :: later)) ++ h.reaches (e :: later) := by
  rw [reaches_of_silent silent, seenUntilClosed_of_closes closes, reachesSeeing_of_none noneOpen, closed,
    closeParagraph_reaches]

theorem addStatement_reaches (files : a.Files h) (division : a.division = h.division) (s : Statement)
    (later : List Event) :
    (a.addStatement s).reachesSeeing (seenUntilClosed (.statement s :: h) later) ++ reaches (.statement s :: h) later =
      a.reachesSeeing (h.seenUntilClosed (.statement s :: later)) ++ h.reaches (.statement s :: later) := by
  have inProcedure : a.inProcedure = h.inProcedure := by rw [Assembly.inProcedure, division, History.inProcedure]
  have isOpen := files.openParagraph
  rw [seenUntilClosed_of_open rfl, addStatement, ← Option.not_isSome, isOpen, inProcedure, reaches, opens?, seen?]
  cases opened : h.paragraphOpen with
  | true =>
    simp only [Bool.not_true, Bool.false_and, Bool.false_eq_true, if_false, if_true, Bool.true_or, Option.toList_some]
    rw [appendStatement_reaches]
    rfl
  | false =>
    have noneOpen : a.openParagraph = none := by simpa [opened] using isOpen
    cases current : h.inProcedure with
    | true =>
      have entry : Name.clean Program.entryParagraph = Program.entryParagraph := by decide
      simp only [Bool.not_false, Bool.true_and, if_true, Bool.false_eq_true, if_false, Option.map_some,
        Option.toList_some]
      rw [appendStatement_reaches, enterParagraph_reaches, entry, reachesSeeing_of_none noneOpen,
        reachesSeeing_of_none noneOpen, List.foldl_cons, LineNumber.max_self, List.append_assoc]
    | false =>
      simp only [Bool.and_false, Bool.false_eq_true, if_false, Option.map_none, Option.toList_none, List.nil_append]
      rw [appendStatement_reaches, reachesSeeing_of_none noneOpen, reachesSeeing_of_none noneOpen]

/-- Every event adds the paragraph that it opens. -/
theorem step_reaches (reads : a.declarations.Reads stem h) (files : a.Files h) (e : Event) (later : List Event) :
    (a.step e).reachesSeeing (seenUntilClosed (e :: h) later) ++ reaches (e :: h) later =
      a.reachesSeeing (h.seenUntilClosed (e :: later)) ++ h.reaches (e :: later) := by
  have division : a.division = h.division := reads.division
  cases e with
  | programId name =>
    simp only [step, setProgramId]
    split <;> exact reaches_of_kept rfl rfl rfl rfl rfl rfl
  | division name line => exact reaches_of_closed rfl (closeParagraph_openParagraph a) rfl rfl
  | sectionHeader name line =>
    simp only [step, enterSection, division]
    split
    · rename_i inData
      exact reaches_of_kept rfl rfl rfl (by simp [closes, History.inProcedure, inData]) rfl rfl
    · split
      · rename_i inProcedure
        exact reaches_of_closed rfl (closeParagraph_openParagraph a) (beq_iff_eq.2 inProcedure) rfl
      · rename_i elsewhere
        exact reaches_of_kept rfl rfl rfl (beq_false_of_ne elsewhere) rfl rfl
  | dataSection name => exact reaches_of_kept rfl rfl rfl rfl rfl rfl
  | procedureSection name line => exact reaches_of_closed rfl (closeParagraph_openParagraph a) rfl rfl
  | dataItem item =>
    have current : a.dataSection = h.dataSection := reads.dataSection
    simp only [step, addDataItem, current]
    split
    · rename_i outside
      exact reaches_of_kept rfl rfl rfl rfl (by rw [seen?, outside]; rfl) rfl
    · rename_i section_ inSection
      have accepted : h.seen? (.dataItem item) = some item.line := by rw [seen?, inSection]; rfl
      rw [observe_reaches, reaches_of_silent rfl, seenUntilClosed_of_open rfl, accepted]
      rfl
  | paragraph name line =>
    rw [step, enterParagraph_reaches, seenUntilClosed_of_closes rfl, List.append_assoc]
    rfl
  | statement s => exact addStatement_reaches files division s later
  | observe line =>
    rw [step, observe_reaches, reaches_of_silent rfl, seenUntilClosed_of_open rfl]
    rfl
  | syntaxErrors count => exact reaches_of_kept rfl rfl rfl rfl rfl rfl

/-- Events add the paragraphs that they open. -/
theorem run_reaches (reads : a.declarations.Reads stem h) (files : a.Files h) (events : List Event) :
    (a.run events).finish.paragraphs.map Paragraph.reach =
      a.reachesSeeing (h.seenUntilClosed events) ++ h.reaches events := by
  induction events generalizing a h with
  | nil =>
    show a.closeParagraph.closedParagraphs.map Paragraph.reach = _
    rw [closeParagraph_reaches]
    exact (List.append_nil _).symm
  | cons e events ih =>
    rw [run_cons, ih (step_reads reads e) (step_files files reads.division e)]
    exact step_reaches reads files e events

/-- What the history drops is what the assembly ignores. -/
theorem ignores_eq_drops (reads : a.declarations.Reads stem h) (files : a.Files h) (e : Event) :
    a.ignores e = h.drops e := by
  have division : a.division = h.division := reads.division
  have inProcedure : a.inProcedure = h.inProcedure := by rw [Assembly.inProcedure, division, History.inProcedure]
  cases e with
  | programId name =>
    have declared : a.declaresId = (h.gather namesDeclared).head?.isSome := reads.declaresId
    rw [ignores, declared, drops]
  | sectionHeader name line => rw [ignores, division, inProcedure, drops]
  | dataItem item =>
    have current : a.dataSection = h.dataSection := reads.dataSection
    rw [ignores, current, drops]
  | statement s => rw [ignores, ← Option.not_isSome, files.openParagraph, inProcedure, drops, Bool.not_or]
  | _ => rfl

/-- A dropped event leaves the assembly as it was. -/
theorem step_of_drops (reads : a.declarations.Reads stem h) (files : a.Files h) {e : Event}
    (dropped : h.drops e = true) : a.step e = a :=
  step_of_ignores ((ignores_eq_drops reads files e).trans dropped)

theorem start_reads (path : Path) (backend : Text) :
    (start path backend).declarations.Reads (path.fileStem.getD []) [] := ⟨rfl, rfl, rfl, rfl, rfl, rfl⟩

theorem start_files (path : Path) (backend : Text) : (start path backend).Files [] := ⟨rfl, rfl⟩

end Assembly

namespace Program

open History

/-- **Each paragraph reaches the last line that is seen while it is open.**

* Paragraph by paragraph, name, line and last line are what the events tell.
* What the paragraph that opens after `before` is depends on the lines seen up to the event that closes it, which is
  the first of `after`, and on nothing else that comes before or after.
* An event that is dropped has no influence on anything. -/
theorem ofEvents_reaches (path : Path) (backend : Text) (events : List Event) :
    (ofEvents path backend events).paragraphs.map Paragraph.reach = reaches [] events ∧
    (∀ before e within after name line, events = before ++ e :: (within ++ after) →
      opens? before.reverse e = some (name, line) →
      (∀ c ∈ after.head?, closes (within.reverse ++ e :: before.reverse) c = true) →
      ((ofEvents path backend events).paragraphs.map Paragraph.reach)[(reaches [] before).length]? =
        some ⟨name, line, (seenUntilClosed (e :: before.reverse) within).foldl max line⟩) ∧
    ∀ before e after, events = before ++ e :: after → drops before.reverse e = true →
      ofEvents path backend (before ++ after) = ofEvents path backend events := by
  have told (events : List Event) : (ofEvents path backend events).paragraphs.map Paragraph.reach = reaches [] events :=
    Assembly.run_reaches (Assembly.start_reads path backend) (Assembly.start_files path backend) events
  refine ⟨told events, ?_, ?_⟩
  · rintro before e within after name line rfl opened closed
    have rest := drop_reaches_append (h := []) before (e :: (within ++ after))
    rw [List.append_nil, reaches, opened, seenUntilClosed_append closed] at rest
    rw [told, ← Nat.add_zero (reaches [] before).length, ← List.getElem?_drop, rest]
    rfl
  · rintro before e after rfl dropped
    obtain ⟨reads, files⟩ := Assembly.run_reads_files (Assembly.start_reads path backend)
      (Assembly.start_files path backend) before
    rw [List.append_nil] at reads files
    rw [ofEvents, ofEvents, Assembly.run_append, Assembly.run_append, Assembly.run_cons,
      Assembly.step_of_drops reads files dropped]

/-- A statement before any paragraph, below it a paragraph on earlier lines, and lines that are seen between them and
after the last division header. -/
def outOfOrder : List Event :=
  [.division "PROCEDURE".toList 1, .statement ⟨.call, "A".toList, none, 9, false⟩, .observe 4,
    .sectionHeader "MAIN".toList 12, .observe 20, .paragraph "LAST-PARA".toList 7,
    .statement ⟨.goTo, "FIRST-PARA".toList, none, 3, false⟩, .dataItem ⟨1, "B".toList, none, 99⟩, .observe 8,
    .division "DATA".toList 2, .observe 50]

/-- The paragraph LAST-PARA reaches line 8: the lines seen outside it do not count, nor does the item, which stands in
no data section. -/
theorem ofEvents_reaches_outOfOrder :
    opens? (outOfOrder.take 5).reverse (.paragraph "LAST-PARA".toList 7) = some ("LAST-PARA".toList, 7) ∧
      ((ofEvents ⟨"/src/ODD.cbl".toList⟩ [] outOfOrder).paragraphs.map Paragraph.reach)[1]? =
        some ⟨"LAST-PARA".toList, 7, 8⟩ ∧
      drops (outOfOrder.take 7).reverse (.dataItem ⟨1, "B".toList, none, 99⟩) = true ∧
      ofEvents ⟨"/src/ODD.cbl".toList⟩ [] (outOfOrder.eraseIdx 7) = ofEvents ⟨"/src/ODD.cbl".toList⟩ [] outOfOrder := by
  obtain ⟨-, reaches, dropped⟩ := ofEvents_reaches ⟨"/src/ODD.cbl".toList⟩ [] outOfOrder
  have opened : opens? (outOfOrder.take 5).reverse (.paragraph "LAST-PARA".toList 7) =
      some ("LAST-PARA".toList, 7) := by decide
  have isDropped : drops (outOfOrder.take 7).reverse (.dataItem ⟨1, "B".toList, none, 99⟩) = true := by decide
  exact ⟨opened,
    reaches (outOfOrder.take 5) _ ((outOfOrder.drop 6).take 3) (outOfOrder.drop 9) _ _ rfl opened (by decide),
    isDropped, dropped (outOfOrder.take 7) _ (outOfOrder.drop 8) rfl isDropped⟩

end Program

end CobolAtlas
