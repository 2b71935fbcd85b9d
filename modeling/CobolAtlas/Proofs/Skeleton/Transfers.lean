/-
# CobolAtlas.Proofs.Skeleton.Transfers -- which transfers of control a line gives

Every line of the procedure division is searched three times, for CALL, for PERFORM and for GO TO, and each search
stops where it finds something.  Of the statements in a row a line gives the first of each kind, in the order of the
searches and not in the order of the row (`recorded`, `statements_row`).  So it gives the row as it was written where
its kinds come in that order and each once, and nowhere else (`recorded_iff`).

A statement on a line of its own is given as it was written (`Transfer.statements_sentence`).
-/
import CobolAtlas.Proofs.Skeleton.Row
import CobolAtlas.Source.Scan
import Mathlib.Data.List.Basic

namespace CobolAtlas.Skeleton

set_option autoImplicit false

open Text Source

/-! ## Kinds -/

/-- The word that a search for statements of a kind looks for. -/
def keyword : StatementKind → Text
  | .call => "CALL".toList
  | .perform => "PERFORM".toList
  | .goTo => "GO".toList

theorem keyword_mem (k : StatementKind) : keyword k ∈ searchedVerbs := by
  cases k <;> decide

theorem keyword_ne {k l : StatementKind} : k ≠ l → keyword k ≠ keyword l := by
  cases k <;> cases l <;> decide

namespace Transfer

def kind : Transfer → StatementKind
  | .callLiteral _ | .callData _ => .call
  | .perform .. => .perform
  | .goTo _ => .goTo

theorem verb_eq (t : Transfer) : t.verb = keyword t.kind := by
  cases t <;> rfl

theorem kind_record (line : Nat) (t : Transfer) : (t.record line).kind = t.kind := by
  cases t <;> rfl

theorem exists_pieces (t : Transfer) : ∃ operands, t.pieces = t.verb :: operands := by
  cases t with
  | callLiteral l => exact ⟨_, rfl⟩
  | callData name => exact ⟨_, rfl⟩
  | perform first notCount last => cases last <;> exact ⟨_, rfl⟩
  | goTo target => exact ⟨_, rfl⟩

end Transfer

/-! ## What a row gives -/

/-- The order in which a line is searched. -/
def searchOrder : List StatementKind := [.call, .perform, .goTo]

/-- The first statement of a kind. -/
def firstOf (ts : List Transfer) (k : StatementKind) : Option Transfer := ts.find? (·.kind == k)

/-- The first statement of each kind. -/
def recorded (ts : List Transfer) : List Transfer := searchOrder.filterMap (firstOf ts)

section Rows

variable {ts : List Transfer} {k : StatementKind}

theorem hidden_of_kind (others : ∀ t ∈ ts, t.kind ≠ k) : ∀ piece ∈ ts.flatMap (·.pieces), Hidden (keyword k) piece := by
  intro piece member
  obtain ⟨t, among, inside⟩ := List.mem_flatMap.1 member
  refine t.hidden (keyword_mem k) ?_ piece inside
  rw [t.verb_eq]
  exact keyword_ne (others t among).symm

theorem hidden_of_firstOf_eq_none (absent : firstOf ts k = none) :
    ∀ piece ∈ ts.flatMap (·.pieces), Hidden (keyword k) piece :=
  hidden_of_kind fun t among => by simpa using List.find?_eq_none.1 absent t among

/-- The first statement of a kind stands behind pieces that hide its verb, and before the verb of another. -/
theorem exists_row_of_firstOf {t : Transfer} (found : firstOf ts k = some t) (period : Bool) (gap : Nat → Gap) :
    t.kind = k ∧ ∃ before after later, (∀ piece ∈ before, Hidden (keyword k) piece) ∧
      (∀ w ∈ after.head?, w ∈ searchedVerbs) ∧
      row period gap (ts.flatMap (·.pieces)) = lead gap before ++ row period later (t.pieces ++ after) := by
  obtain ⟨isKind, us, vs, rfl, others⟩ := List.find?_eq_some_iff_append.1 found
  obtain ⟨operands, pieces⟩ := t.exists_pieces
  obtain ⟨later, split⟩ := row_append period gap (us.flatMap (·.pieces)) t.verb
    (operands ++ vs.flatMap (·.pieces))
  refine ⟨beq_iff_eq.1 isKind, us.flatMap (·.pieces), vs.flatMap (·.pieces), later, ?_, ?_, ?_⟩
  · exact hidden_of_kind fun u among => by simpa using others u among
  · cases vs with
    | nil =>
      rintro w ⟨⟩
    | cons v vs =>
      obtain ⟨operands, pieces⟩ := v.exists_pieces
      rw [List.flatMap_cons, pieces]
      rintro w ⟨⟩
      exact v.verb_mem
  · rw [List.flatMap_append, List.flatMap_cons, pieces, List.cons_append, split]

variable (ts) (period : Bool) (gap : Nat → Gap) (line : Nat)

/-- A search that misses hidden verbs gives the target of the first statement of its kind. -/
theorem target_row {α : Type} {target? : Text → Option α} {report : α → Statement}
    (missed : ∀ pieces, (∀ piece ∈ pieces, Hidden (keyword k) piece) → target? (row period gap pieces) = none)
    (behind : ∀ pieces, (∀ piece ∈ pieces, Hidden (keyword k) piece) →
      ∀ code, target? (lead gap pieces ++ code) = target? code)
    (atStart : ∀ t : Transfer, t.kind = k → ∀ later after, (∀ w ∈ after.head?, w ∈ searchedVerbs) →
      (target? (row period later (t.pieces ++ after))).map report = some (t.record line)) :
    (target? (row period gap (ts.flatMap (·.pieces)))).map report = (firstOf ts k).map (Transfer.record line) := by
  cases found : firstOf ts k with
  | none =>
    rw [missed _ (hidden_of_firstOf_eq_none found)]
    rfl
  | some t =>
    obtain ⟨isKind, before, after, later, hidden, verb, split⟩ := exists_row_of_firstOf found period gap
    rw [split, behind before hidden]
    exact atStart t isKind later after verb

theorem call_row :
    ((callTarget? (row period gap (ts.flatMap (·.pieces)))).map fun t =>
      (⟨.call, t.program, none, UInt32.ofNat line, t.dynamic⟩ : Statement)) =
      (firstOf ts .call).map (Transfer.record line) := by
  refine target_row ts period gap line (fun pieces hidden => ?_) (fun _ hidden code => callTarget?_lead gap code hidden)
    fun t isKind later after _ => ?_
  · rw [callTarget?, search_row_eq_none seeks_callOperand? (keyword_mem .call) hidden]
  · cases t with
    | callLiteral l =>
      have target := callTarget?_literal period later after l
      rw [show (Transfer.callLiteral l).pieces ++ after = "CALL".toList :: l.quoted :: after from rfl, target]
      rfl
    | callData name =>
      have target := callTarget?_data period later name after
      rw [show (Transfer.callData name).pieces ++ after = "CALL".toList :: name.text :: after from rfl, target]
      rfl
    | perform first notCount last => cases isKind
    | goTo target => cases isKind

theorem perform_row :
    ((performRange? (row period gap (ts.flatMap (·.pieces)))).map fun r =>
      (⟨.perform, r.first, r.last, UInt32.ofNat line, false⟩ : Statement)) =
      (firstOf ts .perform).map (Transfer.record line) := by
  refine target_row ts period gap line (fun pieces hidden => ?_) (fun _ hidden code => performRange?_lead gap code hidden)
    fun t isKind later after verb => ?_
  · rw [performRange?, search_row_eq_none seeks_performWords? (keyword_mem .perform) hidden, Option.bind_none]
  · cases t with
    | perform first notCount last =>
      cases last with
      | none =>
        -- a verb comes next, so no THRU and no TIMES belongs to this PERFORM
        have target := performRange?_one period later first after notCount verb
        rw [show (Transfer.perform first notCount none).pieces ++ after = "PERFORM".toList :: first.text :: after from rfl,
          target]
        rfl
      | some last =>
        have target := performRange?_through period later first last after notCount
        rw [show (Transfer.perform first notCount (some last)).pieces ++ after =
          "PERFORM".toList :: first.text :: "THRU".toList :: last.text :: after from rfl, target]
        rfl
    | callLiteral l => cases isKind
    | callData name => cases isKind
    | goTo target => cases isKind

theorem goTo_row :
    ((goToTarget? (row period gap (ts.flatMap (·.pieces)))).map fun target =>
      (⟨.goTo, target, none, UInt32.ofNat line, false⟩ : Statement)) =
      (firstOf ts .goTo).map (Transfer.record line) := by
  refine target_row ts period gap line (fun pieces hidden => ?_) (fun _ hidden code => goToTarget?_lead gap code hidden)
    fun t isKind later after _ => ?_
  · rw [goToTarget?, search_row_eq_none seeks_goToWord? (keyword_mem .goTo) hidden]
  · cases t with
    | goTo name =>
      have target := goToTarget?_name period later name after
      rw [show (Transfer.goTo name).pieces ++ after = "GO".toList :: "TO".toList :: name.text :: after from rfl, target]
      rfl
    | callLiteral l => cases isKind
    | callData name => cases isKind
    | perform first notCount last => cases isKind

/-- **A row gives the first of its statements of each kind, in the order of the searches.** -/
theorem statements_row :
    statements (UInt32.ofNat line) (row period gap (ts.flatMap (·.pieces))) =
      (recorded ts).map (Transfer.record line) := by
  have inOrder : ∀ call perform goTo : Option Transfer,
      (call.map (Transfer.record line)).toList ++ (perform.map (Transfer.record line)).toList ++
        (goTo.map (Transfer.record line)).toList =
        ([call, perform, goTo].filterMap fun found => found).map (Transfer.record line) := by
    intro call perform goTo
    cases call <;> cases perform <;> cases goTo <;> rfl
  rw [statements, call_row, perform_row, goTo_row, inOrder]
  rfl

end Rows

/-! ## Rows that are given whole -/

section Whole

variable {ts : List Transfer}

theorem sublist_kinds_recorded (ts : List Transfer) : ((recorded ts).map Transfer.kind).Sublist searchOrder := by
  have each : ∀ order : List StatementKind,
      ((order.filterMap (firstOf ts)).map Transfer.kind).Sublist order := by
    intro order
    induction order with
    | nil => exact .slnil
    | cons k order ih =>
      cases found : firstOf ts k with
      | none =>
        rw [List.filterMap_cons_none found]
        exact ih.cons k
      | some t =>
        have isKind : (t.kind == k) = true := List.find?_some (p := fun u : Transfer => u.kind == k) found
        rw [List.filterMap_cons_some found, List.map_cons, beq_iff_eq.1 isKind]
        exact ih.cons_cons k
  exact each searchOrder

/-- Statements whose kinds come in the order of the searches, each at most once, are all given. -/
theorem recorded_eq_self (ordered : (ts.map Transfer.kind).Sublist searchOrder) : recorded ts = ts := by
  have each : ∀ (order : List StatementKind) (ts : List Transfer), order.Nodup → (ts.map Transfer.kind).Sublist order →
      order.filterMap (firstOf ts) = ts := by
    intro order
    induction order with
    | nil =>
      intro ts _ ordered
      rw [List.map_eq_nil_iff.1 (List.sublist_nil.1 ordered)]
      rfl
    | cons k order ih =>
      intro ts distinct ordered
      obtain ⟨fresh, others⟩ := List.nodup_cons.1 distinct
      rcases List.sublist_cons_iff.1 ordered with later | ⟨kinds, isCons, later⟩
      · -- no statement is of the first kind
        have absent : firstOf ts k = none := by
          refine List.find?_eq_none.2 fun t among => ?_
          have other : t.kind ≠ k := by
            rintro rfl
            exact fresh (later.subset (List.mem_map_of_mem among))
          simpa using other
        rw [List.filterMap_cons_none absent]
        exact ih ts others later
      · obtain ⟨t, ts, rfl, rfl, rfl⟩ := List.map_eq_cons_iff.1 isCons
        have first : firstOf (t :: ts) t.kind = some t := List.find?_cons_of_pos (beq_self_eq_true _)
        have rest : order.filterMap (firstOf (t :: ts)) = order.filterMap (firstOf ts) := by
          refine List.filterMap_congr fun k among => List.find?_cons_of_neg ?_
          have other : t.kind ≠ k := by
            rintro rfl
            exact fresh among
          simpa using other
        rw [List.filterMap_cons_some first, rest, ih ts others later]
  exact each searchOrder ts (by decide) ordered

/-- A row is given as it was written exactly where its kinds come in the order of the searches, each at most once. -/
theorem recorded_iff (line : Nat) :
    (recorded ts).map (Transfer.record line) = ts.map (Transfer.record line) ↔
      (ts.map Transfer.kind).Sublist searchOrder := by
  have kinds : ∀ ts : List Transfer, (ts.map (Transfer.record line)).map (·.kind) = ts.map Transfer.kind := by
    intro ts
    rw [List.map_map]
    exact List.map_congr_left fun t _ => t.kind_record line
  constructor
  · intro whole
    have same := congrArg (List.map (·.kind)) whole
    rw [kinds, kinds] at same
    rw [← same]
    exact sublist_kinds_recorded ts
  · intro ordered
    rw [recorded_eq_self ordered]

theorem recorded_singleton (t : Transfer) : recorded [t] = [t] := by
  refine recorded_eq_self (List.singleton_sublist.2 ?_)
  cases t.kind <;> decide

end Whole

/-! ## A statement on a line of its own -/

/-- A sentence is a row with a blank in each gap. -/
theorem sentence_eq_row (period : Bool) (pieces : List Text) :
    sentence period pieces = row period (fun _ => .blank) pieces := by
  induction pieces with
  | nil => rfl
  | cons piece pieces ih =>
    cases pieces with
    | nil => rfl
    | cons next pieces =>
      rw [sentence, ih]
      · rfl
      · exact List.cons_ne_nil next pieces

/-- **The line of a transfer of control gives that transfer and no other.** -/
theorem Transfer.statements_sentence (t : Transfer) (period : Bool) (line : Nat) :
    statements (UInt32.ofNat line) (sentence period t.pieces) = [t.record line] := by
  have alone := statements_row [t] period (fun _ => .blank) line
  rw [List.flatMap_singleton, ← sentence_eq_row, recorded_singleton] at alone
  exact alone

end CobolAtlas.Skeleton
