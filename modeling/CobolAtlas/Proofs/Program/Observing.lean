/-
# CobolAtlas.Proofs.Program.Observing -- lines that are only seen

A line that is seen (`Event.observe`) does nothing but make the open paragraph reach it.  So of two assemblies that
differ in the last line seen, the one that is ahead makes the same program as long as the open paragraph gets there
anyway.

* `LeadsTo` says that the paragraphs of an assembly come to be those of a list: the closed ones are its first, and the
  open one is the next, where it may end further below.  What a step leads to, the state before it leads to
  (`leadsTo_of_step`).
* `Ahead` says that a line is not above the last one seen and not below the end that the open paragraph comes to have.
  Then it can stand for the last line seen at every step (`step_reaching`) and at the end of the file
  (`finish_reaching`).
* `countNamed` counts the paragraphs of certain names, and `headed` those that have a header of their own.  Events add
  to it what they add to any other assembly (`countNamed_run`, `headed_run`).
-/
import CobolAtlas.Proofs.Program.Extents

namespace CobolAtlas.Assembly

set_option autoImplicit false

variable {a : Assembly} {final : List Paragraph} {m : LineNumber}

/-! ## What the paragraphs come to be -/

/-- The closed paragraphs are the first of the list, and the open one is the next, as far as it is known. -/
structure LeadsTo (a : Assembly) (final : List Paragraph) : Prop where
  closed : a.closedParagraphs <+: final
  opened : ∀ p, a.openParagraph = some p →
    ∃ q, final[a.closedParagraphs.length]? = some q ∧ max p.endLine a.lastLine ≤ q.endLine

theorem leadsTo_finish (a : Assembly) : a.LeadsTo a.finish.paragraphs := by
  show a.LeadsTo a.closeParagraph.closedParagraphs
  cases isOpen : a.openParagraph with
  | none =>
    rw [closeParagraph_of_none isOpen]
    exact ⟨List.prefix_rfl, fun p opened => nomatch isOpen.symm.trans opened⟩
  | some p =>
    rw [closeParagraph_of_some isOpen]
    refine ⟨List.prefix_append _ _, fun q opened => ?_⟩
    cases isOpen.symm.trans opened
    exact ⟨_, List.getElem?_concat_length, UInt32.le_refl _⟩

/-- A paragraph that is closed has its end. -/
theorem getElem?_of_closed (closed : a.closeParagraph.closedParagraphs <+: final) {p : Paragraph}
    (isOpen : a.openParagraph = some p) :
    final[a.closedParagraphs.length]? = some { p with endLine := max p.endLine a.lastLine } := by
  rw [closeParagraph_of_some isOpen] at closed
  obtain ⟨later, rfl⟩ := closed
  rw [List.append_assoc, List.getElem?_append_right (Nat.le_refl _), Nat.sub_self]
  rfl

theorem leadsTo_of_closed (closed : a.closeParagraph.closedParagraphs <+: final) : a.LeadsTo final where
  closed := by
    refine List.IsPrefix.trans ?_ closed
    cases isOpen : a.openParagraph with
    | none =>
      have same : a.closeParagraph.closedParagraphs = a.closedParagraphs := by rw [closeParagraph_of_none isOpen]
      exact same ▸ List.prefix_rfl
    | some p =>
      rw [closeParagraph_of_some isOpen]
      exact List.prefix_append _ _
  opened := fun _ isOpen => ⟨_, getElem?_of_closed closed isOpen, UInt32.le_refl _⟩

/-- A step that keeps the open paragraph open says no less about it. -/
theorem LeadsTo.of_kept {b : Assembly} (leads : b.LeadsTo final) (closed : b.closedParagraphs = a.closedParagraphs)
    (opened : b.openParagraph.map (·.endLine) = a.openParagraph.map (·.endLine)) (later : a.lastLine ≤ b.lastLine) :
    a.LeadsTo final := by
  refine ⟨closed ▸ leads.closed, fun p isOpen => ?_⟩
  rw [isOpen, Option.map_some, Option.map_eq_some_iff] at opened
  obtain ⟨q, still, same⟩ := opened
  obtain ⟨r, there, reaches⟩ := leads.opened q still
  refine ⟨r, closed ▸ there, UInt32.le_trans ?_ reaches⟩
  rw [same]
  exact LineNumber.max_le (LineNumber.left_le_max _ _) (UInt32.le_trans later (LineNumber.right_le_max _ _))

theorem leadsTo_of_appendStatement {s : Statement} (leads : (a.appendStatement s).LeadsTo final) : a.LeadsTo final := by
  unfold appendStatement at leads
  split at leads
  · exact leads
  · rename_i p isOpen
    exact leads.of_kept rfl (by rw [isOpen]; rfl) (LineNumber.left_le_max _ _)

theorem leadsTo_of_step {e : Event} (leads : (a.step e).LeadsTo final) : a.LeadsTo final := by
  have effect := step_effect a e
  generalize a.step e = b at effect leads
  cases effect with
  | ignored | named | counted | dataSection => exact leads.of_kept rfl rfl (UInt32.le_refl _)
  | observed | item => exact leads.of_kept rfl rfl (LineNumber.left_le_max _ _)
  | division | procedureSection | paragraph => exact leadsTo_of_closed leads.closed
  | entry s => exact leadsTo_of_closed (leadsTo_of_appendStatement leads).closed
  | statement s => exact leadsTo_of_appendStatement leads

theorem leadsTo_of_run {events : List Event} (leads : (a.run events).LeadsTo final) : a.LeadsTo final := by
  induction events generalizing a with
  | nil => exact leads
  | cons e events ih => exact leadsTo_of_step (ih leads)

/-! ## Another line in place of the last one seen -/

/-- The assembly that has seen lines as far as `m`. -/
def reaching (a : Assembly) (m : LineNumber) : Assembly := { a with lastLine := m }

/-- The line is not above the last one seen, and the open paragraph comes to reach it. -/
structure Ahead (final : List Paragraph) (a : Assembly) (m : LineNumber) : Prop where
  seen : a.lastLine ≤ m
  within : ∀ p, a.openParagraph = some p → ∀ q, final[a.closedParagraphs.length]? = some q → m ≤ q.endLine

/-- The last line seen is itself within reach. -/
theorem LeadsTo.ahead (leads : a.LeadsTo final) : Ahead final a a.lastLine where
  seen := UInt32.le_refl _
  within := fun p isOpen q there => by
    obtain ⟨r, there', reaches⟩ := leads.opened p isOpen
    cases there.symm.trans there'
    exact UInt32.le_trans (LineNumber.right_le_max _ _) reaches

/-- Where the open paragraph stays open, lines that both see keep one ahead of the other. -/
theorem Ahead.kept {b : Assembly} {m' : LineNumber} (ahead : Ahead final a m) (leads : b.LeadsTo final)
    (closed : b.closedParagraphs = a.closedParagraphs) (opened : b.openParagraph.isSome = a.openParagraph.isSome)
    (seen : b.lastLine ≤ m') (within : ∀ bound, m ≤ bound → b.lastLine ≤ bound → m' ≤ bound) : Ahead final b m' := by
  refine ⟨seen, fun p isOpen q there => ?_⟩
  rw [isOpen, Option.isSome_some] at opened
  obtain ⟨p', isOpen'⟩ := Option.isSome_iff_exists.1 opened.symm
  exact within q.endLine (ahead.within p' isOpen' q (closed ▸ there)) (leads.ahead.within p isOpen q there)

/-- A line that both see. -/
theorem Ahead.observe (ahead : Ahead final a m) {line : LineNumber} {b : Assembly} (leads : b.LeadsTo final)
    (closed : b.closedParagraphs = a.closedParagraphs) (opened : b.openParagraph.isSome = a.openParagraph.isSome)
    (seen : b.lastLine = max a.lastLine line) : Ahead final b (max m line) := by
  refine ahead.kept leads closed opened ?_ fun bound low high => LineNumber.max_le low ?_
  · rw [seen]
    exact LineNumber.max_le (UInt32.le_trans ahead.seen (LineNumber.left_le_max _ _)) (LineNumber.right_le_max _ _)
  · exact UInt32.le_trans (seen ▸ LineNumber.right_le_max _ _) high

/-- The open paragraph ends where it would have ended. -/
theorem closeParagraph_reaching (ahead : Ahead final a m) (closed : a.closeParagraph.closedParagraphs <+: final) :
    (a.reaching m).closeParagraph = a.closeParagraph.reaching m := by
  cases isOpen : a.openParagraph with
  | none =>
    have still : (a.reaching m).openParagraph = none := isOpen
    rw [closeParagraph_of_none isOpen, closeParagraph_of_none still]
  | some p =>
    have still : (a.reaching m).openParagraph = some p := isOpen
    have within : m ≤ max p.endLine a.lastLine := ahead.within p isOpen _ (getElem?_of_closed closed isOpen)
    have same : max p.endLine m = max p.endLine a.lastLine :=
      UInt32.le_antisymm (LineNumber.max_le (LineNumber.left_le_max _ _) within)
        (LineNumber.max_le (LineNumber.left_le_max _ _) (UInt32.le_trans ahead.seen (LineNumber.right_le_max _ _)))
    rw [closeParagraph_of_some isOpen, closeParagraph_of_some still]
    show reaching { a with closedParagraphs := a.closedParagraphs ++ [{ p with endLine := max p.endLine m }],
                           openParagraph := none } m = _
    rw [same]

theorem finish_reaching (ahead : Ahead a.finish.paragraphs a m) : (a.reaching m).finish = a.finish := by
  have closed := closeParagraph_reaching ahead List.prefix_rfl
  rw [finish, closed]
  rfl

/-! ## Steps -/

/-- A header closes the open paragraph, and what it leaves does not depend on the last line seen before. -/
theorem enterDivision_reaching (ahead : Ahead final a m) {name : Text} {line : LineNumber}
    (leads : (a.enterDivision name line).LeadsTo final) :
    (a.reaching m).enterDivision name line = a.enterDivision name line := by
  rw [enterDivision, closeParagraph_reaching ahead leads.closed]
  rfl

theorem enterProcedureSection_reaching (ahead : Ahead final a m) {name : Text} {line : LineNumber}
    (leads : (a.enterProcedureSection name line).LeadsTo final) :
    (a.reaching m).enterProcedureSection name line = a.enterProcedureSection name line := by
  rw [enterProcedureSection, closeParagraph_reaching ahead leads.closed]
  rfl

theorem enterParagraph_reaching (ahead : Ahead final a m) {name : Text} {line : LineNumber}
    (leads : (a.enterParagraph name line).LeadsTo final) :
    (a.reaching m).enterParagraph name line = a.enterParagraph name line := by
  rw [enterParagraph, closeParagraph_reaching ahead leads.closed]
  rfl

theorem appendStatement_reaching (ahead : Ahead final a m) {s : Statement}
    (leads : (a.appendStatement s).LeadsTo final) :
    ∃ m', (a.reaching m).appendStatement s = (a.appendStatement s).reaching m' ∧
      Ahead final (a.appendStatement s) m' := by
  cases isOpen : a.openParagraph with
  | none =>
    have kept : a.appendStatement s = a := by rw [appendStatement, isOpen]
    have kept' : (a.reaching m).appendStatement s = a.reaching m := by
      have still : (a.reaching m).openParagraph = none := isOpen
      rw [appendStatement, still]
    rw [kept, kept']
    exact ⟨m, rfl, ahead⟩
  | some p =>
    have still : (a.reaching m).openParagraph = some p := isOpen
    refine ⟨max m s.line, ?_, ahead.observe leads ?_ (appendStatement_isSome a s) ?_⟩
    · rw [appendStatement, still, appendStatement, isOpen]
      rfl
    · rw [appendStatement, isOpen]
      rfl
    · rw [appendStatement, isOpen]
      rfl

/-- One step with another line in place of the last one seen. -/
theorem step_reaching (ahead : Ahead final a m) {e : Event} (leads : (a.step e).LeadsTo final) :
    ∃ m', (a.reaching m).step e = (a.step e).reaching m' ∧ Ahead final (a.step e) m' := by
  have effect := step_effect a e
  generalize a.step e = b at effect leads ⊢
  -- what does not depend on the last line seen leaves the same assembly
  have same (agrees : (a.reaching m).step e = b) :
      ∃ m', (a.reaching m).step e = b.reaching m' ∧ Ahead final b m' := ⟨b.lastLine, agrees, leads.ahead⟩
  have stepped {c : Assembly} (effect : (a.reaching m).Effect e c) : (a.reaching m).step e = c := effect.step_eq
  cases effect with
  | ignored without => exact ⟨m, step_of_ignores without, ahead⟩
  | named name id cleaned first => exact ⟨m, stepped (.named name id cleaned first), ahead.seen, ahead.within⟩
  | counted count => exact ⟨m, rfl, ahead.seen, ahead.within⟩
  | observed line => exact ⟨max m line, rfl, ahead.observe leads rfl rfl rfl⟩
  | division name line => exact same (enterDivision_reaching ahead leads)
  | dataSection name enters => exact ⟨m, stepped (.dataSection name enters), ahead.seen, ahead.within⟩
  | procedureSection name line opens =>
    exact same ((stepped (.procedureSection name line opens)).trans (enterProcedureSection_reaching ahead leads))
  | item item current inside =>
    exact ⟨max m item.line, stepped (.item item current inside), ahead.observe leads rfl rfl rfl⟩
  | paragraph name line => exact same (enterParagraph_reaching ahead leads)
  | entry s noneOpen inProcedure =>
    have opened := enterParagraph_reaching ahead (leadsTo_of_appendStatement leads)
    exact same ((stepped (.entry s noneOpen inProcedure)).trans (congrArg (appendStatement s) opened))
  | statement s p isOpen =>
    obtain ⟨m', appended, ahead'⟩ := appendStatement_reaching ahead leads
    exact ⟨m', (stepped (.statement s p isOpen)).trans appended, ahead'⟩

theorem run_reaching (ahead : Ahead final a m) {events : List Event} (leads : (a.run events).LeadsTo final) :
    ∃ m', (a.reaching m).run events = (a.run events).reaching m' ∧ Ahead final (a.run events) m' := by
  induction events generalizing a m with
  | nil => exact ⟨m, rfl, ahead⟩
  | cons e events ih =>
    obtain ⟨m', stepped, ahead'⟩ := step_reaching ahead (leadsTo_of_run leads)
    rw [run_cons, stepped]
    exact ih ahead' leads

/-! ## Paragraphs by their names -/

section Named

variable {P : Text → Bool}

/-- The number of paragraphs so far whose names are such. -/
def countNamed (P : Text → Bool) (a : Assembly) : Nat := a.paragraphs.countP fun p => P p.name

/-- Does the event open a paragraph whose name is such? -/
def opensNamed (P : Text → Bool) : Event → Bool
  | .paragraph name _ => P (Name.clean name)
  | _ => false

theorem countNamed_closeParagraph (a : Assembly) : a.closeParagraph.countNamed P = a.countNamed P := by
  have count : ∀ b : Assembly, b.countNamed P = (b.paragraphs.map Paragraph.header).countP fun p => P p.name :=
    fun b => by
      rw [List.countP_map]
      rfl
  rw [count, count, closeParagraph_headers]

theorem countNamed_finish (a : Assembly) : a.finish.paragraphs.countP (fun p => P p.name) = a.countNamed P := by
  rw [finish_paragraphs]
  exact countNamed_closeParagraph a

theorem countNamed_enterParagraph (a : Assembly) (name : Text) (line : LineNumber) :
    (a.enterParagraph name line).countNamed P = a.countNamed P + if P (Name.clean name) then 1 else 0 := by
  rw [← countNamed_closeParagraph a, enterParagraph]
  have isClosed := closeParagraph_openParagraph a
  generalize a.closeParagraph = b at isClosed ⊢
  simp only [countNamed, paragraphs, isClosed, Option.toList_none, Option.toList_some, List.append_nil,
    List.countP_append, List.countP_singleton]

theorem countNamed_appendStatement (a : Assembly) (s : Statement) :
    (a.appendStatement s).countNamed P = a.countNamed P := by
  unfold appendStatement
  split
  · rfl
  · rename_i p isOpen
    simp only [countNamed, paragraphs, observe, isOpen, Option.toList_some, List.countP_append, List.countP_singleton]

variable (entry : P Program.entryParagraph = false)
include entry

/-- Only a header adds a paragraph whose name is such, if that of the entry paragraph is not. -/
theorem countNamed_step (a : Assembly) (e : Event) :
    (a.step e).countNamed P = a.countNamed P + if opensNamed P e then 1 else 0 := by
  have effect := step_effect a e
  generalize a.step e = b at effect ⊢
  cases effect with
  | ignored without =>
    cases e with
    | paragraph name line => cases without
    | _ => rfl
  | named | counted | observed | item => rfl
  | division name line => exact countNamed_closeParagraph a
  | dataSection name enters => cases enters <;> rfl
  | procedureSection name line opens => cases opens <;> exact countNamed_closeParagraph a
  | paragraph name line => exact countNamed_enterParagraph a name line
  | entry s =>
    have unnamed : P (Name.clean Program.entryParagraph) = false := entry
    rw [countNamed_appendStatement, countNamed_enterParagraph, unnamed]
    rfl
  | statement s => exact countNamed_appendStatement a s

theorem countNamed_run (a : Assembly) (events : List Event) :
    (a.run events).countNamed P = a.countNamed P + events.countP (opensNamed P) := by
  induction events generalizing a with
  | nil => rfl
  | cons e events ih =>
    rw [run_cons, ih, countNamed_step entry, List.countP_cons]
    omega

end Named

/-- Has the paragraph a header of its own? -/
def hasHeader (p : Paragraph) : Bool := p.name != Program.entryParagraph

/-- The number of paragraphs with a header so far. -/
def headed (a : Assembly) : Nat := a.paragraphs.countP hasHeader

/-- Does the event open a paragraph with a header? -/
def opensHeaded : Event → Bool
  | .paragraph name _ => Name.clean name != Program.entryParagraph
  | _ => false

theorem headed_finish (a : Assembly) : a.finish.paragraphs.countP hasHeader = a.headed :=
  countNamed_finish (P := (· != Program.entryParagraph)) a

theorem headed_run (a : Assembly) (events : List Event) :
    (a.run events).headed = a.headed + events.countP opensHeaded := by
  have same : opensHeaded = opensNamed (· != Program.entryParagraph) := funext fun e => by cases e <;> rfl
  rw [same]
  exact countNamed_run (P := (· != Program.entryParagraph)) (by decide) a events

end CobolAtlas.Assembly
