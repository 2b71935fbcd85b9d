/-
# CobolAtlas.Proofs.Syntax.Transfers -- the statements of a syntax tree

Where no kind is listed under two roles, a profile can be read list by list (`role?_eq_some_iff`), and the
statements of a program can be read off its tree.  Of the nodes that stand below no program name and no header, in
document order, those make a statement that are of the kind of a statement and whose own text tells one
(`transfer?`).  It is accepted where a paragraph is open or the division node that came last was that of the
procedure division (`accepts`).

The main statement is `ofTree_statements`: these are the statements of the program, none lost, doubled or moved.  The
visit reports them among other events, and the history of these events accepts what the tree accepts (`Tells`).
-/
import CobolAtlas.Proofs.Program.History
import CobolAtlas.Proofs.Syntax.Visit

namespace CobolAtlas

set_option autoImplicit false

/-! ## Profiles without overlap -/

/-- The place of a role among the roles that a kind is tried for. -/
def Role.place : Role → Nat
  | .programName => 0
  | .division _ => 1
  | .dataSection _ => 2
  | .dataItem => 3
  | .sectionHeader => 4
  | .paragraphHeader => 5
  | .call => 6
  | .perform => 7
  | .goTo => 8

namespace Profile

/-- The kinds listed for each role, in the order of the places. -/
def kinds (p : Profile) : List (List Text) :=
  [p.programName, p.divisions.map (·.1), p.dataSections.map (·.1), p.dataItem, p.sectionHeader, p.paragraphHeader,
    p.call, p.perform, p.goTo]

/-- No kind is listed under two roles. -/
def IsSeparate (p : Profile) : Prop := p.kinds.Pairwise fun l m => ∀ kind ∈ l, kind ∉ m

instance (p : Profile) : Decidable p.IsSeparate := inferInstanceAs (Decidable (p.kinds.Pairwise _))

/-- Is the kind listed for the role? -/
def Lists (p : Profile) (kind : Text) : Role → Prop
  | .programName => kind ∈ p.programName
  | .division name => p.divisions.lookup kind = some name
  | .dataSection name => p.dataSections.lookup kind = some name
  | .dataItem => kind ∈ p.dataItem
  | .sectionHeader => kind ∈ p.sectionHeader
  | .paragraphHeader => kind ∈ p.paragraphHeader
  | .call => kind ∈ p.call
  | .perform => kind ∈ p.perform
  | .goTo => kind ∈ p.goTo

variable {p : Profile} {kind : Text} {role : Role}

theorem lists_of_role? (found : p.role? kind = some role) : p.Lists kind role := by
  unfold role? at found
  split at found
  · cases found
    exact List.contains_iff_mem.1 ‹_›
  · split at found
    · cases found
      assumption
    · split at found
      · cases found
        assumption
      · repeat (split at found; · cases found; exact List.contains_iff_mem.1 ‹_›)
        cases found

theorem Lists.place (listed : p.Lists kind role) : ∃ l, p.kinds[role.place]? = some l ∧ kind ∈ l := by
  cases role with
  | division name | dataSection name =>
    obtain ⟨before, after, pairs, -⟩ := List.lookup_eq_some_iff.1 listed
    exact ⟨_, rfl, by simp [pairs]⟩
  | _ => exact ⟨_, rfl, listed⟩

/-- A kind that is listed for a role is listed for none that is tried before it. -/
theorem IsSeparate.notMem (separate : p.IsSeparate) (listed : p.Lists kind role) :
    ∀ l ∈ p.kinds.take role.place, kind ∉ l := by
  obtain ⟨l, found, member⟩ := listed.place
  obtain ⟨lt, rfl⟩ := List.getElem?_eq_some_iff.1 found
  intro m before inBefore
  obtain ⟨i, below, rfl⟩ := List.mem_take_iff_getElem.1 before
  exact List.pairwise_iff_getElem.1 separate i role.place _ lt (by omega) kind inBefore member

theorem role?_of_lists (separate : p.IsSeparate) (listed : p.Lists kind role) : p.role? kind = some role := by
  have others := separate.notMem listed
  have noKey (pairs : List (Text × Text)) : kind ∉ pairs.map (·.1) ↔ pairs.lookup kind = none := by
    rw [List.lookup_eq_none_iff, List.mem_map, not_exists]
    exact forall_congr' fun pair => by rw [bne_iff_ne, not_and, ne_comm]
  cases role <;>
    simp only [Role.place, kinds, List.take_succ_cons, List.take_zero, List.forall_mem_cons, List.not_mem_nil,
      false_implies, implies_true, and_true, noKey] at others <;>
    simp_all [role?, Lists, -List.lookup_eq_none_iff]

theorem role?_eq_some_iff (separate : p.IsSeparate) : p.role? kind = some role ↔ p.Lists kind role :=
  ⟨lists_of_role?, role?_of_lists separate⟩

end Profile

namespace Node

/-! ## Statements in a tree -/

/-- Does a program name or a header stand above? -/
def Site.isInHeader (profile : Profile) (s : Site) : Bool :=
  s.above.any (profile.programName ++ profile.sectionHeader ++ profile.paragraphHeader).contains

/-- The statement that a node of the kind of a statement makes by its own text, on the line it starts on. -/
def transfer? (profile : Profile) (node : Node) : Option Statement :=
  if profile.call.contains node.kind then
    (Source.callTarget? node.text).map fun t => ⟨.call, t.program, none, node.startLine, t.dynamic⟩
  else if profile.perform.contains node.kind then
    (Source.performRange? node.text).map fun r => ⟨.perform, r.first, r.last, node.startLine, false⟩
  else if profile.goTo.contains node.kind then
    (Source.goToTarget? node.text).map fun target => ⟨.goTo, target, none, node.startLine, false⟩
  else none

/-- The division of the last division node. -/
def lastDivision (profile : Profile) (before : List Node) : Option Text :=
  before.findSome? fun node => (profile.divisions.lookup node.kind).map Name.ofDivision

/-- Has a paragraph header come, and neither a division nor a section header after it? -/
def underParagraph (profile : Profile) : List Node → Bool
  | [] => false
  | node :: before =>
      if profile.paragraphHeader.contains node.kind then true
      else if profile.sectionHeader.contains node.kind || (profile.divisions.lookup node.kind).isSome then false
      else underParagraph profile before

/-- Is a statement accepted after the nodes `before`, the last one first?  A paragraph is open, or the last division
node was that of the procedure division, where a statement opens the entry paragraph itself. -/
def accepts (profile : Profile) (before : List Node) : Bool :=
  underParagraph profile before || lastDivision profile before == some "PROCEDURE".toList

/-- The statements accepted of nodes that come after the nodes `before`. -/
def transfersAfter (profile : Profile) (before : List Node) : List Node → List Statement
  | [] => []
  | node :: nodes =>
      (if accepts profile before then (transfer? profile node).toList else []) ++
        transfersAfter profile (node :: before) nodes

/-- The statements accepted in a tree: of the nodes below no program name and no header, in document order. -/
def transfers (profile : Profile) (tree : Node) : List Statement :=
  transfersAfter profile [] ((tree.sites.filter fun s => !s.isInHeader profile).map Site.node)

/-! ## The same by roles -/

section Roles

variable {profile : Profile} (separate : profile.IsSeparate)

include separate

theorem isClosed_eq (kind : Text) :
    isClosed profile kind =
      (profile.programName ++ profile.sectionHeader ++ profile.paragraphHeader).contains kind := by
  have closed : isClosed profile kind = true ↔ profile.role? kind = some .programName ∨
      profile.role? kind = some .sectionHeader ∨ profile.role? kind = some .paragraphHeader := by
    unfold isClosed
    split <;> simp_all
  rw [Bool.eq_iff_iff, closed, List.contains_iff_mem]
  simp only [Profile.role?_eq_some_iff separate, Profile.Lists, List.mem_append, or_assoc]

theorem isReached_eq (s : Site) : s.isReached profile = !s.isInHeader profile := by
  simp only [Site.isReached, Site.isInHeader, isClosed_eq separate, List.not_any_eq_all_not]

/-- The statement of a node is the one that its role tells. -/
theorem transfer?_eq (node : Node) :
    node.transfer? profile = (profile.role? node.kind).bind fun role => statement? role node.text node.startLine := by
  have call : profile.role? node.kind = some .call ↔ node.kind ∈ profile.call :=
    Profile.role?_eq_some_iff separate
  have perform : profile.role? node.kind = some .perform ↔ node.kind ∈ profile.perform :=
    Profile.role?_eq_some_iff separate
  have goTo : profile.role? node.kind = some .goTo ↔ node.kind ∈ profile.goTo :=
    Profile.role?_eq_some_iff separate
  simp only [transfer?, List.contains_iff_mem, ← call, ← perform, ← goTo]
  cases profile.role? node.kind with
  | none => rfl
  | some role => cases role <;> rfl

theorem lookup_divisions_eq (kind : Text) :
    profile.divisions.lookup kind =
      match profile.role? kind with
      | some (.division name) => some name
      | _ => none := by
  have listed (name : Text) : profile.role? kind = some (.division name) ↔ profile.divisions.lookup kind = some name :=
    Profile.role?_eq_some_iff separate
  cases found : profile.divisions.lookup kind with
  | some name => rw [(listed name).2 found]
  | none =>
    split
    · rename_i name role
      exact absurd ((listed name).1 role) (by simp [found])
    · rfl

theorem lastDivision_cons (node : Node) (before : List Node) :
    lastDivision profile (node :: before) =
      match profile.role? node.kind with
      | some (.division name) => some (Name.ofDivision name)
      | _ => lastDivision profile before := by
  rw [lastDivision, List.findSome?_cons, lookup_divisions_eq separate]
  cases profile.role? node.kind with
  | none => rfl
  | some role => cases role <;> rfl

theorem underParagraph_cons (node : Node) (before : List Node) :
    underParagraph profile (node :: before) =
      match profile.role? node.kind with
      | some .paragraphHeader => true
      | some .sectionHeader | some (.division _) => false
      | _ => underParagraph profile before := by
  have paragraph : profile.role? node.kind = some .paragraphHeader ↔ node.kind ∈ profile.paragraphHeader :=
    Profile.role?_eq_some_iff separate
  have sectionHeader : profile.role? node.kind = some .sectionHeader ↔ node.kind ∈ profile.sectionHeader :=
    Profile.role?_eq_some_iff separate
  simp only [underParagraph, Bool.or_eq_true, List.contains_iff_mem, ← paragraph, ← sectionHeader,
    lookup_divisions_eq separate]
  cases profile.role? node.kind with
  | none => rfl
  | some role => cases role <;> rfl

theorem accepts_cons (node : Node) (before : List Node) :
    accepts profile (node :: before) =
      match profile.role? node.kind with
      | some .paragraphHeader => true
      | some .sectionHeader => lastDivision profile before == some "PROCEDURE".toList
      | some (.division name) => some (Name.ofDivision name) == some "PROCEDURE".toList
      | _ => accepts profile before := by
  rw [accepts, lastDivision_cons separate, underParagraph_cons separate]
  cases profile.role? node.kind with
  | none => rfl
  | some role => cases role <;> rfl

/-! ## The visit in its history -/

/-- The history accepts statements where the nodes do. -/
structure Tells (profile : Profile) (h : History) (before : List Node) : Prop where
  division : h.division = lastDivision profile before
  accepting : (h.paragraphOpen || h.inProcedure) = accepts profile before

variable {h : History} {before : List Node}

/-- One more node has come. -/
theorem Tells.ownEvents (tells : Tells profile h before) (node : Node) :
    Tells profile ((node.ownEvents profile).reverse ++ h) (node :: before) := by
  obtain ⟨division, accepting⟩ := tells
  refine ⟨?_, ?_⟩
  · rw [lastDivision_cons separate, ← division]
    unfold Node.ownEvents
    cases profile.role? node.kind with
    | none => rfl
    | some role =>
      cases role with
      | dataItem => cases node.dataItem? profile <;> rfl
      | call | perform | goTo => dsimp only; cases statement? _ node.text node.startLine <;> rfl
      | _ => rfl
  · rw [accepts_cons separate, ← accepting, ← division]
    unfold Node.ownEvents
    cases profile.role? node.kind with
    | none => rfl
    | some role =>
      cases role with
      | dataItem => cases node.dataItem? profile <;> rfl
      | call | perform | goTo =>
        dsimp only
        cases statement? _ node.text node.startLine with
        | none => rfl
        | some s => simp [History.paragraphOpen, History.inProcedure, History.division]
      | _ => rfl

/-- The statement of a node is accepted where the nodes before it accept one. -/
theorem Tells.gather_ownEvents (tells : Tells profile h before) (node : Node) :
    History.gather History.statementsAccepted ((node.ownEvents profile).reverse ++ h) =
      h.gather History.statementsAccepted ++
        if accepts profile before then (node.transfer? profile).toList else [] := by
  rw [transfer?_eq separate, ← tells.accepting]
  unfold Node.ownEvents
  cases profile.role? node.kind with
  | none => simp
  | some role =>
    cases role with
    | call | perform | goTo =>
      simp only [Option.bind_some]
      cases statement? _ node.text node.startLine <;> simp [History.gather_cons, History.statementsAccepted]
    | dataItem => cases node.dataItem? profile <;> simp [History.gather_cons, History.statementsAccepted, statement?]
    | _ => simp [History.gather_cons, History.statementsAccepted, statement?]

/-- A node reports what it makes of itself, and then at most the line it ends on. -/
theorem Tells.reports (tells : Tells profile h before) (node : Node) :
    Tells profile ((node.reports profile).reverse ++ h) (node :: before) ∧
      History.gather History.statementsAccepted ((node.reports profile).reverse ++ h) =
        h.gather History.statementsAccepted ++
          if accepts profile before then (node.transfer? profile).toList else [] := by
  have own := tells.ownEvents separate node
  have gathered := tells.gather_ownEvents separate node
  unfold Node.reports
  generalize node.ownEvents profile = events at own gathered
  split
  · rw [List.append_nil]
    exact ⟨own, gathered⟩
  · split
    · rw [List.reverse_append, List.append_assoc]
      exact ⟨⟨own.division, own.accepting⟩, (History.gather_cons_of_nil rfl).trans gathered⟩
    · rw [List.append_nil]
      exact ⟨own, gathered⟩

/-- Over any nodes that come one after another, the statements accepted are those that the nodes tell of. -/
theorem Tells.gather_flatMap (tells : Tells profile h before) (nodes : List Node) :
    History.gather History.statementsAccepted ((nodes.flatMap (Node.reports profile)).reverse ++ h) =
      h.gather History.statementsAccepted ++ transfersAfter profile before nodes := by
  induction nodes generalizing h before with
  | nil => exact (List.append_nil _).symm
  | cons node nodes ih =>
    obtain ⟨after, gathered⟩ := tells.reports separate node
    rw [List.flatMap_cons, List.reverse_append, List.append_assoc, ih after, gathered, transfersAfter,
      List.append_assoc]

end Roles

end Node

namespace Program

/-- The statements of a program are those that its events tell of where they are accepted. -/
theorem statements_ofEvents (path : Path) (backend : Text) (events : List Event) :
    (ofEvents path backend events).statements = History.gather History.statementsAccepted events.reverse := by
  have start : (Assembly.start path backend).declarations.Reads (path.fileStem.getD []) [] :=
    ⟨rfl, rfl, rfl, rfl, rfl, rfl⟩
  have files := (Assembly.run_reads_files start ⟨rfl, rfl⟩ events).2.filings
  rw [List.append_nil, ← Assembly.closeParagraph_filings] at files
  have filings : (ofEvents path backend events).filings = History.gather History.filings events.reverse := files
  rw [statements_eq_filings, filings, History.filings_statements]

/-- **The statements of a tree.**  Where no kind is listed under two roles, the statements of the program are those
of the nodes that stand below no program name and no header, in document order, where a paragraph is open or the
procedure division is current. -/
theorem ofTree_statements {profile : Profile} (separate : profile.IsSeparate) (path : Path) (backend : Text)
    (tree : Node) : (ofTree profile path backend tree).statements = tree.transfers profile := by
  have start : Node.Tells profile [] [] := ⟨rfl, rfl⟩
  have reached : tree.reached profile = (tree.sites.filter fun s => !s.isInHeader profile).map Node.Site.node := by
    rw [Node.reached_eq_sites]
    congr 2
    exact funext (Node.isReached_eq separate)
  rw [ofTree, statements_ofEvents, List.reverse_append, Node.events_eq_flatMap]
  refine (History.gather_cons_of_nil rfl).trans ?_
  have gathered := start.gather_flatMap separate (tree.reached profile)
  rw [List.append_nil] at gathered
  rw [List.append_eq, List.nil_append, gathered, reached]
  rfl

/-- A GO TO in the data division, a loop with a call inside, a damaged header, and a division nested in a statement. -/
def nested : Node :=
  .mk "start".toList [] 1 9 false
    [.mk "data_division".toList [] 1 2 false
        [.mk "goto_statement".toList "GO TO NOWHERE".toList 2 2 false []],
      .mk "procedure_division".toList [] 3 9 false
        [.mk "paragraph_header".toList "MAIN.".toList 4 4 false
            [.mk "call_statement".toList "CALL 'LOST'".toList 4 4 false []],
          .mk "perform_statement_loop".toList "PERFORM STEP-A THRU STEP-B".toList 5 9 false
            [.mk "call_statement".toList "CALL 'SUB'".toList 6 6 false [],
              .mk "data_division".toList [] 7 7 false [],
              .mk "goto_statement".toList "GO TO HALT".toList 8 8 false []]]]

theorem ofTree_statements_nested :
    Profile.standard.IsSeparate ∧
      (ofTree Profile.standard ⟨"/src/nested.cbl".toList⟩ [] nested).statements =
        [⟨.perform, "STEP-A".toList, some "STEP-B".toList, 5, false⟩, ⟨.call, "SUB".toList, none, 6, false⟩] := by
  have separate : Profile.standard.IsSeparate := by decide
  have told := ofTree_statements separate ⟨"/src/nested.cbl".toList⟩ [] nested
  exact ⟨separate, told.trans (by decide +kernel)⟩

end Program

end CobolAtlas
