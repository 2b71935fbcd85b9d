/-
# CobolAtlas.Proofs.Calls.Totals -- the targets that are reported without a file

The totals of a call graph name each target without a file once, in upper case and in ascending order
(`mem_unresolvedTargets`, `pairwise_unresolvedTargets`), while an index compares names in lower case.  The two agree on
a name whose upper case has the lower case of the name itself (`Text.EvenlyCased`), such as a name in ASCII; what is
reported of any other name may lead to a file (`evenlyCased_iff`): no file is known for a call of `straße`, and what is
reported is `STRASSE`.

The main statement is `totals_report`.
-/
import CobolAtlas.Proofs.Calls.Files
import CobolAtlas.Proofs.Text.Word
import Mathlib.Data.Char
import Mathlib.Data.List.Lex

namespace CobolAtlas

set_option autoImplicit false

/-! ## Both letter cases -/

namespace Text

/-- No character vanishes in upper case. -/
theorem upperCharacter_ne_nil (c : Char) : upperCharacter c ≠ [] := by
  unfold upperCharacter
  split
  · simp
  · split
    · rename_i image found
      obtain ⟨before, after, table, -⟩ := List.lookup_eq_some_iff.1 found
      have member : (c.toNat, image) ∈ upperSequences := by rw [table]; simp
      have nonempty : ∀ entry ∈ upperSequences, entry.2 ≠ [] := by decide
      simpa using nonempty _ member
    · split <;> simp

theorem upper_eq_nil_iff (t : Text) : upper t = [] ↔ t = [] := by
  rw [upper, List.flatMap_eq_nil_iff, List.eq_nil_iff_forall_not_mem]
  exact forall₂_congr fun c _ => iff_false_intro (upperCharacter_ne_nil c)

/-- Without a capital sigma, the lower case of a text is that of its characters. -/
theorem lower_eq_flatMap {t : Text} (noSigma : 'Σ' ∉ t) : lower t = t.flatMap lowerCharacter := by
  have after : ∀ before, lowerAfter before t = t.flatMap lowerCharacter := by
    induction t with
    | nil => exact fun _ => rfl
    | cons c t ih =>
      intro before
      obtain ⟨other, noSigma⟩ := List.ne_and_not_mem_of_not_mem_cons noSigma
      have notSigma : (c == 'Σ') = false := beq_false_of_ne (Ne.symm other)
      rw [lowerAfter, notSigma, if_neg Bool.false_ne_true, ih noSigma, List.flatMap_cons]
  exact after []

/-- Has the upper case of the text the lower case of the text itself? -/
def EvenlyCased (t : Text) : Prop := lower (upper t) = lower t

instance (t : Text) : Decidable (EvenlyCased t) := inferInstanceAs (Decidable (lower (upper t) = lower t))

/-- A text is evenly cased where its characters are, none of them a sigma. -/
theorem evenlyCased_of_characters {t : Text} (noSigma : ∀ c ∈ t, c ≠ 'Σ' ∧ 'Σ' ∉ upperCharacter c)
    (each : ∀ c ∈ t, (upperCharacter c).flatMap lowerCharacter = lowerCharacter c) : EvenlyCased t := by
  have noneIn : 'Σ' ∉ t := fun member => (noSigma 'Σ' member).1 rfl
  have noneAbove : 'Σ' ∉ upper t := by
    intro member
    obtain ⟨c, inText, isSigma⟩ := List.mem_flatMap.1 member
    exact (noSigma c inText).2 isSigma
  calc lower (upper t)
      _ = (t.flatMap upperCharacter).flatMap lowerCharacter := lower_eq_flatMap noneAbove
      _ = t.flatMap fun c => (upperCharacter c).flatMap lowerCharacter := List.flatMap_assoc
      _ = t.flatMap lowerCharacter := List.flatMap_congr each
      _ = lower t := (lower_eq_flatMap noneIn).symm

theorem evenlyCased_of_ascii {t : Text} (ascii : ∀ c ∈ t, c.toNat < 128) : EvenlyCased t := by
  have even : ∀ n < 128, (Char.ofNat n ≠ 'Σ' ∧ 'Σ' ∉ upperCharacter (Char.ofNat n)) ∧
      (upperCharacter (Char.ofNat n)).flatMap lowerCharacter = lowerCharacter (Char.ofNat n) := by decide +kernel
  have each : ∀ c ∈ t, (c ≠ 'Σ' ∧ 'Σ' ∉ upperCharacter c) ∧ (upperCharacter c).flatMap lowerCharacter = lowerCharacter c :=
    fun c member =>
      of_ascii (P := fun c => (c ≠ 'Σ' ∧ 'Σ' ∉ upperCharacter c) ∧
        (upperCharacter c).flatMap lowerCharacter = lowerCharacter c) even (ascii c member)
  exact evenlyCased_of_characters (fun c member => (each c member).1) fun c member => (each c member).2

end Text

/-! ## Names that lead nowhere -/

namespace ProgramIndex

/-- A name leads nowhere exactly where no program has it, letter case aside. -/
theorem lookup_eq_none_iff (programs : List Program) {name : Text} (named : name ≠ []) :
    (ofPrograms programs).lookup name = none ↔ ∀ p ∈ programs, Text.lower p.id ≠ Text.lower name := by
  rw [lookup_ofPrograms programs named, Option.map_eq_none_iff, Option.or_eq_none_iff, List.find?_eq_none,
    List.find?_eq_none, ← forall₂_and]
  refine forall₂_congr fun p _ => ?_
  have same : (key p.id == key name) = true ↔ Text.lower p.id = Text.lower name := beq_iff_eq
  rw [declares, hasStem, Bool.and_eq_true, Bool.and_eq_true, same]
  cases p.declaresId <;> simp

/-- The upper case of a name that leads nowhere leads to a file exactly where a program has the one name and not the
other, letter case aside. -/
theorem lookup_upper_eq_none_iff {programs : List Program} {name : Text}
    (nowhere : (ofPrograms programs).lookup name = none) :
    (ofPrograms programs).lookup (Text.upper name) = none ↔
      ∀ p ∈ programs, Text.lower p.id = Text.lower (Text.upper name) → Text.lower p.id = Text.lower name := by
  by_cases named : name = []
  · subst named
    exact iff_of_true (lookup_nil programs) fun p _ same => same
  · have upperNamed : Text.upper name ≠ [] := fun isEmpty => named ((Text.upper_eq_nil_iff name).1 isEmpty)
    have others := (lookup_eq_none_iff programs named).1 nowhere
    rw [lookup_eq_none_iff programs upperNamed]
    exact forall₂_congr fun p member => imp_congr_right fun _ => iff_of_false id (others p member)

end ProgramIndex

namespace CallGraph

/-! ## A target that is misreported -/

/-- One program, of a declared name, that calls a target. -/
def callTo (target declared : Text) : List Program :=
  [⟨[], declared, [], [], [], [], [], none, true, [⟨[], [], 1, target, none, false⟩]⟩]

/-- A target that is not evenly cased is reported where a program has its name in upper case. -/
theorem exists_misreported {name : Text} (uneven : ¬Text.EvenlyCased name) :
    ∃ programs : List Program, ∃ e ∈ (ofPrograms programs (.ofPrograms programs)).edges,
      e.toProgram = name ∧ e.toFile = none ∧ (ProgramIndex.ofPrograms programs).lookup (Text.upper name) ≠ none := by
  have named : name ≠ [] := by
    rintro rfl
    exact uneven rfl
  have upperNamed : Text.upper name ≠ [] := fun isEmpty => named ((Text.upper_eq_nil_iff name).1 isEmpty)
  -- the one program has the upper case of the name, and so another name than the one that it calls
  refine ⟨callTo name (Text.upper name), _, .head _, rfl, ?_, fun nowhere => ?_⟩
  · refine (ProgramIndex.lookup_eq_none_iff _ named).2 fun p member => ?_
    rw [List.mem_singleton.1 member]
    exact uneven
  · exact (ProgramIndex.lookup_eq_none_iff _ upperNamed).1 nowhere _ (.head _) rfl

/-! ## Ascending lists -/

section Ascending

variable {t u : Text} {ts : List Text}

theorem mem_insertAscending : u ∈ insertAscending t ts ↔ u = t ∨ u ∈ ts := by
  induction ts with
  | nil => exact List.mem_cons
  | cons first ts ih =>
    unfold insertAscending
    split
    · exact List.mem_cons
    · split
      · rename_i same
        rw [same, List.mem_cons, or_self_left]
      · rw [List.mem_cons, ih, List.mem_cons, or_left_comm]

theorem mem_ascending : u ∈ ascending ts ↔ u ∈ ts := by
  induction ts with
  | nil => exact Iff.rfl
  | cons first ts ih => exact mem_insertAscending.trans ((or_congr_right ih).trans List.mem_cons.symm)

theorem pairwise_insertAscending (ordered : ts.Pairwise (· < ·)) : (insertAscending t ts).Pairwise (· < ·) := by
  induction ts with
  | nil => exact List.pairwise_singleton _ t
  | cons first ts ih =>
    obtain ⟨least, later⟩ := List.pairwise_cons.1 ordered
    unfold insertAscending
    split
    · rename_i below
      refine List.pairwise_cons.2 ⟨fun u member => ?_, ordered⟩
      rcases List.mem_cons.1 member with rfl | among
      · exact below
      · exact lt_trans below (least u among)
    · split
      · exact ordered
      · rename_i notBelow different
        have above : first < t := (lt_trichotomy t first).resolve_left notBelow |>.resolve_left different
        refine List.pairwise_cons.2 ⟨fun u member => ?_, ih later⟩
        rcases mem_insertAscending.1 member with rfl | among
        · exact above
        · exact least u among

theorem pairwise_ascending (ts : List Text) : (ascending ts).Pairwise (· < ·) := by
  induction ts with
  | nil => exact .nil
  | cons t ts ih => exact pairwise_insertAscending ih

end Ascending

/-! ## The totals -/

section Counting

variable (g : CallGraph)

/-- An edge without a file is reported under its target in upper case, and nothing else is. -/
theorem mem_unresolvedTargets (t : Text) :
    t ∈ g.totals.unresolvedTargets ↔ ∃ e ∈ g.edges, e.toFile = none ∧ Text.upper e.toProgram = t := by
  have reported : t ∈ g.totals.unresolvedTargets ↔ t ∈ g.unresolved.map fun e => Text.upper e.toProgram := mem_ascending
  simp only [reported, List.mem_map, unresolved, List.mem_filter, Option.isNone_iff_eq_none, and_assoc]

theorem pairwise_unresolvedTargets : g.totals.unresolvedTargets.Pairwise (· < ·) := pairwise_ascending _

/-- Each edge has a file or has none. -/
theorem resolved_add_unresolved : g.totals.resolved + g.unresolved.length = g.totals.edges := by
  have others : (fun e : CallEdge => e.toFile.isNone) = fun e => decide ¬e.toFile.isSome = true := by
    funext e
    cases e.toFile <;> rfl
  rw [unresolved, ← List.countP_eq_length_filter, others]
  exact (List.length_eq_countP_add_countP (fun e : CallEdge => e.toFile.isSome)).symm

end Counting

theorem toFile_of_mem_edges {programs : List Program} {index : ProgramIndex} {e : CallEdge}
    (member : e ∈ (ofPrograms programs index).edges) : e.toFile = index.lookup e.toProgram := by
  obtain ⟨call, -, rfl⟩ := List.mem_map.1 member
  rfl

theorem leadsNowhere_of_mem_edges {programs : List Program} {e : CallEdge}
    (member : e ∈ (ofPrograms programs (.ofPrograms programs)).edges) (noFile : e.toFile = none) :
    (ProgramIndex.ofPrograms programs).lookup e.toProgram = none :=
  (toFile_of_mem_edges member).symm.trans noFile

/-! ## What is reported -/

/-- The names that are never misreported are the evenly cased ones. -/
theorem evenlyCased_iff (name : Text) : Text.EvenlyCased name ↔
    ∀ programs : List Program, ∀ e ∈ (ofPrograms programs (.ofPrograms programs)).edges,
      e.toProgram = name → e.toFile = none → (ProgramIndex.ofPrograms programs).lookup (Text.upper name) = none := by
  constructor
  · rintro even programs e member rfl noFile
    refine (ProgramIndex.lookup_upper_eq_none_iff (leadsNowhere_of_mem_edges member noFile)).2 fun p _ same => ?_
    exact same.trans even
  · intro never
    by_contra uneven
    obtain ⟨programs, e, member, isName, noFile, known⟩ := exists_misreported uneven
    exact known (never programs e member isName noFile)

/-- **What the totals report.**  The targets are those of the edges without a file, in upper case, each once and in
ascending order, and the edges with a file and those without are all edges.  The targets that are reported lead nowhere
exactly where no program has the upper case of such a target as its name and not the target itself, letter case aside.
So they all lead nowhere where the targets are evenly cased, which goes for every name in ASCII. -/
theorem totals_report (programs : List Program) :
    let index := ProgramIndex.ofPrograms programs
    let graph := ofPrograms programs index
    (∀ t, t ∈ graph.totals.unresolvedTargets ↔ ∃ e ∈ graph.edges, e.toFile = none ∧ Text.upper e.toProgram = t) ∧
    graph.totals.unresolvedTargets.Pairwise (· < ·) ∧
    graph.totals.resolved + (graph.edges.filter (·.toFile.isNone)).length = graph.totals.edges ∧
    ((∀ t ∈ graph.totals.unresolvedTargets, index.lookup t = none) ↔
      ∀ e ∈ graph.edges, e.toFile = none → ∀ p ∈ programs,
        Text.lower p.id = Text.lower (Text.upper e.toProgram) → Text.lower p.id = Text.lower e.toProgram) ∧
    ((∀ e ∈ graph.edges, e.toFile = none → Text.EvenlyCased e.toProgram) →
      ∀ t ∈ graph.totals.unresolvedTargets, index.lookup t = none) ∧
    ((∀ e ∈ graph.edges, e.toFile = none → ∀ c ∈ e.toProgram, c.toNat < 128) →
      ∀ t ∈ graph.totals.unresolvedTargets, index.lookup t = none) := by
  intro index graph
  have targets := mem_unresolvedTargets graph
  have eachTarget : ∀ e ∈ graph.edges, e.toFile = none → (index.lookup (Text.upper e.toProgram) = none ↔
      ∀ p ∈ programs, Text.lower p.id = Text.lower (Text.upper e.toProgram) → Text.lower p.id = Text.lower e.toProgram) :=
    fun e member noFile => ProgramIndex.lookup_upper_eq_none_iff (leadsNowhere_of_mem_edges member noFile)
  have evenly : (∀ e ∈ graph.edges, e.toFile = none → Text.EvenlyCased e.toProgram) →
      ∀ t ∈ graph.totals.unresolvedTargets, index.lookup t = none := by
    intro even t reported
    obtain ⟨e, member, noFile, rfl⟩ := (targets t).1 reported
    exact (eachTarget e member noFile).2 fun p _ same => same.trans (even e member noFile)
  refine ⟨targets, pairwise_unresolvedTargets graph, resolved_add_unresolved graph, ⟨?_, ?_⟩, evenly, ?_⟩
  · intro nowhere e member noFile
    exact (eachTarget e member noFile).1 (nowhere _ ((targets _).2 ⟨e, member, noFile, rfl⟩))
  · intro apart t reported
    obtain ⟨e, member, noFile, rfl⟩ := (targets t).1 reported
    exact (eachTarget e member noFile).2 (apart e member noFile)
  · exact fun ascii => evenly fun e member noFile => Text.evenlyCased_of_ascii (ascii e member noFile)

/-- A program that is declared in upper case and one that calls it in a lower case of another length. -/
def strasseCalls : List Program :=
  [.ofSource ⟨"/src/STRASSE.cbl".toList⟩ "PROGRAM-ID. STRASSE.\n".toList,
    .ofSource ⟨"/src/MAIN.cbl".toList⟩ "PROGRAM-ID. MAIN.\nPROCEDURE DIVISION.\n    CALL 'straße'.\n".toList]

/-- The target is reported, and what is reported leads to a file. -/
theorem totals_report_strasse :
    (ofPrograms strasseCalls (.ofPrograms strasseCalls)).totals = ⟨1, 0, 0, ["STRASSE".toList]⟩ ∧
    (ProgramIndex.ofPrograms strasseCalls).lookup "STRASSE".toList = some "/src/STRASSE.cbl".toList := by
  decide +kernel

end CallGraph

end CobolAtlas
