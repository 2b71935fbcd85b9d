/-
# CobolAtlas.Proofs.Outline.Lines -- the lines of a file and of what stands below it

The node of a program is on the lines from 1 to the last line of the program.  Each node below it stands for a division,
a data section, a procedure section or a paragraph (`PartOf`).  Paragraphs and items lie within the lines of the file.
A procedure section that begins below the last line does not: `lastLine_covers_iff` says for all events that this is the
only way in which lines are missed, in the program and in the outline.
-/
import CobolAtlas.Proofs.Outline.Contents
import CobolAtlas.Proofs.Program.LastLine

namespace CobolAtlas

set_option autoImplicit false

namespace Outline

/-- All nodes below the outline's own. -/
def nodesBelow (o : Outline) : List Outline := o.children.flatMap preorder

variable {p : Program} {x : Outline}

/-! ## What stands below a file -/

/-- The node stands for a part of the program. -/
inductive PartOf (p : Program) : Outline → Prop where
  | division (name : Text) : PartOf p (ofDivision p name)
  | dataSection (s : DataSection) (member : s ∈ p.dataSections) : PartOf p (ofDataSection p.file s)
  | procedureSection (s : ProcedureSection) (later : List ProcedureSection) (member : s ∈ p.sections)
      (listed : "PROCEDURE".toList ∈ p.divisions) : PartOf p (ofSection p s later)
  | paragraph (q : Paragraph) (member : q ∈ p.paragraphs) : PartOf p (ofParagraph p.file q)

theorem exists_of_mem_ofSections {sections : List ProcedureSection} (member : x ∈ ofSections p sections) :
    ∃ s ∈ sections, ∃ later, x = ofSection p s later := by
  induction sections with
  | nil => exact absurd member List.not_mem_nil
  | cons s later ih =>
    rw [ofSections_cons] at member
    rcases List.mem_cons.1 member with rfl | below
    · exact ⟨s, List.mem_cons_self, later, rfl⟩
    · obtain ⟨t, among, rest, rfl⟩ := ih below
      exact ⟨t, List.mem_cons_of_mem s among, rest, rfl⟩

theorem exists_mem_ofSections {sections : List ProcedureSection} {s : ProcedureSection} (member : s ∈ sections) :
    ∃ later, ofSection p s later ∈ ofSections p sections := by
  obtain ⟨earlier, later, rfl⟩ := List.append_of_mem member
  induction earlier with
  | nil =>
    rw [List.nil_append, ofSections_cons]
    exact ⟨later, List.mem_cons_self⟩
  | cons t earlier ih =>
    obtain ⟨rest, shown⟩ := ih (List.mem_append_right _ List.mem_cons_self)
    rw [List.cons_append, ofSections_cons]
    exact ⟨rest, List.mem_cons_of_mem _ shown⟩

/-- The nodes of leaves are the leaves. -/
theorem mem_of_mem_flatMap_preorder {os : List Outline} (leaves : ∀ o ∈ os, o.children = [])
    (member : x ∈ os.flatMap preorder) : x ∈ os := by
  rwa [flatMap_preorder_of_leaves leaves] at member

theorem partOf_of_mem_nodesBelow (member : x ∈ (ofProgram p).nodesBelow) : PartOf p x := by
  obtain ⟨division, isDivision, inDivision⟩ := List.mem_flatMap.1 member
  obtain ⟨name, listed, rfl⟩ := List.mem_map.1 isDivision
  rw [preorder_eq] at inDivision
  rcases List.mem_cons.1 inDivision with rfl | inDivision
  · exact .division name
  · simp only [ofDivision, children] at inDivision
    split at inDivision
    · have isSection := mem_of_mem_flatMap_preorder (List.forall_mem_map.2 fun _ _ => rfl) inDivision
      obtain ⟨s, recorded, rfl⟩ := List.mem_map.1 isSection
      exact .dataSection s recorded
    · split at inDivision
      · rename_i inProcedure
        rw [List.flatMap_append] at inDivision
        rcases List.mem_append.1 inDivision with inSections | isLoose
        · obtain ⟨o, isSection, inSection⟩ := List.mem_flatMap.1 inSections
          obtain ⟨s, recorded, later, rfl⟩ := exists_of_mem_ofSections isSection
          rw [preorder_ofSection] at inSection
          rcases List.mem_cons.1 inSection with rfl | isParagraph
          · exact .procedureSection s later recorded (inProcedure ▸ listed)
          · obtain ⟨q, held, rfl⟩ := List.mem_map.1 isParagraph
            rw [Program.heldBy] at held
            split at held
            · exact absurd held List.not_mem_nil
            · exact .paragraph q (List.mem_of_mem_filter held)
        · rw [flatMap_preorder_ofParagraph] at isLoose
          obtain ⟨q, loose, rfl⟩ := List.mem_map.1 isLoose
          exact .paragraph q (List.mem_of_mem_filter loose)
      · exact absurd inDivision List.not_mem_nil

/-- Every procedure section has a node, where the procedure division is listed. -/
theorem exists_section_nodesBelow (listed : "PROCEDURE".toList ∈ p.divisions) {s : ProcedureSection}
    (member : s ∈ p.sections) : ∃ x ∈ (ofProgram p).nodesBelow, x.data.startLine = s.line := by
  obtain ⟨later, shown⟩ := exists_mem_ofSections (p := p) member
  refine ⟨ofSection p s later, ?_, rfl⟩
  refine List.mem_flatMap.2 ⟨ofDivision p "PROCEDURE".toList, List.mem_map_of_mem listed, ?_⟩
  refine mem_preorder_of_mem_children ?_ (mem_preorder_self _)
  rw [children_ofDivision_procedure]
  exact List.mem_append_left _ shown

/-! ## Lines -/

theorem endOr_mem (line : LineNumber) (qs : List Paragraph) :
    endOr line qs = line ∨ ∃ q ∈ qs, endOr line qs = q.endLine := by
  cases qs with
  | nil => exact .inl rfl
  | cons q qs =>
    have isEnd : endOr line (q :: qs) ∈ (q :: qs).map (·.endLine) := LineNumber.foldl_max_mem _ _
    obtain ⟨r, member, same⟩ := List.mem_map.1 isEnd
    exact .inr ⟨r, member, same.symm⟩

/-- The node stands for something that has no lines: a division, or a data section without items. -/
def HasNoLines (p : Program) (x : Outline) : Prop :=
  x.data.kind = .division ∨ ∃ s ∈ p.dataSections, s.items = [] ∧ x = ofDataSection p.file s

/-- The line is one of an item or a paragraph, or one of a procedure section where these are shown. -/
def IsShown (p : Program) (l : LineNumber) : Prop :=
  l ∈ p.coveredLines ∨ "PROCEDURE".toList ∈ p.divisions ∧ ∃ s ∈ p.sections, s.line = l

theorem IsShown.recorded {l : LineNumber} (shown : IsShown p l) : l ∈ p.recordedLines := by
  rcases shown with covered | ⟨-, s, member, rfl⟩
  · exact List.mem_append_left _ covered
  · exact List.mem_append_right _ (List.mem_map_of_mem member)

/-- What has no lines is on line 0, and all else is on lines of the program. -/
theorem lines_of_partOf (part : PartOf p x) :
    HasNoLines p x ∧ x.data.startLine = 0 ∧ x.data.endLine = 0 ∨
      IsShown p x.data.startLine ∧ IsShown p x.data.endLine := by
  have ofItem {s : DataSection} (isSection : s ∈ p.dataSections) {i : DataItem} (member : i ∈ s.items) :
      IsShown p i.line :=
    .inl (List.mem_append_left _ (List.mem_map_of_mem (List.mem_flatMap.2 ⟨s, isSection, member⟩)))
  have ofParagraph {q : Paragraph} (member : q ∈ p.paragraphs) {l : LineNumber} (inLines : l ∈ q.lines) :
      IsShown p l := .inl (List.mem_append_right _ (List.mem_flatMap.2 ⟨q, member, inLines⟩))
  cases part with
  | division name => exact .inl ⟨.inl rfl, rfl, rfl⟩
  | dataSection s member =>
    by_cases none : s.items = []
    · left
      refine ⟨.inr ⟨s, member, none, rfl⟩, ?_⟩
      simp [ofDataSection, data, none]
    · right
      obtain ⟨first, isFirst⟩ := Option.isSome_iff_exists.1 (List.isSome_head?.2 none)
      obtain ⟨last, isLast⟩ := Option.isSome_iff_exists.1 (List.getLast?_isSome.2 none)
      simp only [ofDataSection, data, isFirst, isLast, Option.map_some, Option.getD_some]
      exact ⟨ofItem member (List.mem_of_mem_head? isFirst), ofItem member (List.mem_of_getLast? isLast)⟩
  | procedureSection s later member listed =>
    have header : IsShown p s.line := .inr ⟨listed, s, member, rfl⟩
    have ends : IsShown p (endOr s.line (p.paragraphsIn s.name)) := by
      rcases endOr_mem s.line (p.paragraphsIn s.name) with same | ⟨q, held, same⟩
      · rw [same]
        exact header
      · rw [same]
        exact ofParagraph (List.mem_of_mem_filter held) (List.mem_cons_of_mem _ List.mem_cons_self)
    exact .inr ⟨header, ends⟩
  | paragraph q member =>
    exact .inr ⟨ofParagraph member List.mem_cons_self, ofParagraph member (List.mem_cons_of_mem _ List.mem_cons_self)⟩

/-- The node ends on the line or above, and so it does not begin below it. -/
def IsUpTo (last : LineNumber) (x : Outline) : Prop := x.data.startLine ≤ last ∧ x.data.endLine ≤ last

/-- A file covers what stands below it exactly if it covers the procedure sections that are shown. -/
theorem nodesBelow_upTo_iff (encloses : p.Encloses) :
    (∀ x ∈ (ofProgram p).nodesBelow, x.IsUpTo (ofProgram p).data.endLine) ↔
      ("PROCEDURE".toList ∈ p.divisions → ∀ s ∈ p.sections, s.line ≤ (ofProgram p).data.endLine) := by
  constructor
  · intro upTo listed s member
    obtain ⟨x, below, same⟩ := exists_section_nodesBelow listed member
    exact same ▸ (upTo x below).1
  · intro sections x below
    have shown : ∀ l, IsShown p l → l ≤ (ofProgram p).data.endLine := by
      rintro l (covered | ⟨listed, s, member, rfl⟩)
      · exact UInt32.le_trans (Program.coveredLines_le encloses covered) (LineNumber.left_le_max _ _)
      · exact sections listed s member
    rcases lines_of_partOf (partOf_of_mem_nodesBelow below) with ⟨-, startsNowhere, endsNowhere⟩ | ⟨starts, ends⟩
    · rw [IsUpTo, startsNowhere, endsNowhere]
      exact ⟨UInt32.zero_le, UInt32.zero_le⟩
    · exact ⟨shown _ starts, shown _ ends⟩

/-- Where lines are counted from 1, only what has no lines is on line 0. -/
theorem counted_of_mem_nodesBelow (counted : 0 ∉ p.recordedLines) (below : x ∈ (ofProgram p).nodesBelow) :
    HasNoLines p x ∧ x.data.startLine = 0 ∧ x.data.endLine = 0 ∨ 1 ≤ x.data.startLine ∧ 1 ≤ x.data.endLine := by
  have positive : ∀ l, IsShown p l → 1 ≤ l := by
    intro l shown
    refine LineNumber.one_le_of_lt (UInt32.lt_of_le_of_ne UInt32.zero_le ?_)
    rintro rfl
    exact counted shown.recorded
  rcases lines_of_partOf (partOf_of_mem_nodesBelow below) with nowhere | ⟨starts, ends⟩
  · exact .inl nowhere
  · exact .inr ⟨positive _ starts, positive _ ends⟩

end Outline

namespace Program

open Outline

/-- **What the last line covers.**  Whatever events a program is made from, in whatever order:

* The last line is the last of the lines of items, paragraphs and statements, and 0 where there are none.
* It is the last of all recorded lines exactly if no procedure section begins below it.
* In every outline the file of the program is on the lines from 1 to the last one, and it covers the nodes below it
  exactly if it covers the procedure sections that are shown.  Where lines are counted from 1, only nodes of divisions and
  of data sections without items are on line 0. -/
theorem lastLine_covers_iff (path : Path) (backend : Text) (events : List Event) :
    let p := ofEvents path backend events
    LineNumber.IsLast p.lastLine p.coveredLines ∧
    (LineNumber.IsLast p.lastLine p.recordedLines ↔ ∀ s ∈ p.sections, s.line ≤ p.lastLine) ∧
    ∀ root programs, p ∈ programs → ∃ file ∈ (ofPrograms root programs).files,
      file = ofProgram p ∧ file.data.startLine = 1 ∧ file.data.endLine = max p.lastLine 1 ∧
      ((∀ x ∈ file.nodesBelow, x.IsUpTo file.data.endLine) ↔
        ("PROCEDURE".toList ∈ p.divisions → ∀ s ∈ p.sections, s.line ≤ file.data.endLine)) ∧
      (0 ∉ p.recordedLines → ∀ x ∈ file.nodesBelow,
        HasNoLines p x ∧ x.data.startLine = 0 ∧ x.data.endLine = 0 ∨ 1 ≤ x.data.startLine ∧ 1 ≤ x.data.endLine) := by
  intro p
  have encloses : p.Encloses := ofEvents_encloses path backend events
  refine ⟨isLast_coveredLines encloses, isLast_recordedLines_iff encloses, fun root programs member => ?_⟩
  have isFile : ofProgram p ∈ (ofPrograms root programs).files :=
    (files_ofPrograms root programs).mem_iff.2 (List.mem_map_of_mem member)
  exact ⟨ofProgram p, isFile, rfl, rfl, rfl, nodesBelow_upTo_iff encloses,
    fun counted x below => counted_of_mem_nodesBelow counted below⟩

/-- The program of a section with a paragraph whose statement stands above it. -/
def covered : Program :=
  ofEvents ⟨"/src/COVERED.cbl".toList⟩ []
    [.division "PROCEDURE".toList 1, .procedureSection "MAIN".toList 4, .paragraph "LAST-PARA".toList 5,
      .statement ⟨.call, "A".toList, none, 2, false⟩]

/-- Its file ends with the paragraph and covers the nodes below it. -/
theorem lastLine_covers_iff_covered :
    covered.lastLine = 5 ∧ LineNumber.IsLast covered.lastLine covered.recordedLines ∧ covered ∈ [covered] ∧
      0 ∉ covered.recordedLines ∧
      ∃ file ∈ (ofPrograms ⟨"/src".toList⟩ [covered]).files, ∀ x ∈ file.nodesBelow, x.IsUpTo file.data.endLine ∧
        (HasNoLines covered x ∧ x.data.startLine = 0 ∧ x.data.endLine = 0 ∨
          1 ≤ x.data.startLine ∧ 1 ≤ x.data.endLine) := by
  have isOne : covered ∈ [covered] := List.mem_singleton_self covered
  have above : ∀ s ∈ covered.sections, s.line ≤ covered.lastLine := by decide
  have counted : 0 ∉ covered.recordedLines := by decide
  obtain ⟨-, all, files⟩ := lastLine_covers_iff ⟨"/src/COVERED.cbl".toList⟩ []
    [.division "PROCEDURE".toList 1, .procedureSection "MAIN".toList 4, .paragraph "LAST-PARA".toList 5,
      .statement ⟨.call, "A".toList, none, 2, false⟩]
  obtain ⟨file, isFile, rfl, -, -, upTo, lines⟩ := files ⟨"/src".toList⟩ [covered] isOne
  exact ⟨by decide, all.2 above, isOne, counted, _, isFile, fun x below =>
    ⟨upTo.2 (fun _ s member => UInt32.le_trans (above s member) (LineNumber.left_le_max _ _)) x below,
      lines counted x below⟩⟩

/-- A procedure section below all paragraphs. -/
def tailEvents : List Event :=
  [.division "PROCEDURE".toList 1, .paragraph "FIRST-PARA".toList 2, .observe 3, .procedureSection "TAIL".toList 4]

/-- The last line and the file end above the section. -/
theorem lastLine_above_section :
    (ofEvents ⟨"/src/TAIL.cbl".toList⟩ [] tailEvents).lastLine = 3 ∧
      4 ∈ (ofEvents ⟨"/src/TAIL.cbl".toList⟩ [] tailEvents).recordedLines ∧
      (ofProgram (ofEvents ⟨"/src/TAIL.cbl".toList⟩ [] tailEvents)).data.endLine = 3 ∧
      ∃ x ∈ (ofProgram (ofEvents ⟨"/src/TAIL.cbl".toList⟩ [] tailEvents)).nodesBelow,
        x.data.name = "TAIL".toList ∧ x.data.startLine = 4 ∧ x.data.endLine = 4 :=
  ⟨by decide, by decide, by decide, _, List.mem_cons_of_mem _ List.mem_cons_self, by decide, by decide, by decide⟩

end Program

end CobolAtlas
