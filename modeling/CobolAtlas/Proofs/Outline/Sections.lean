/-
# CobolAtlas.Proofs.Outline.Sections -- which section nodes show their sections

A program records the paragraphs of a section by position (`Program.blocks`); the outline finds them by the section's
name.  Where sections share a name, each of their nodes ends at the last paragraph of the name, and the last node holds
all paragraphs of the name and the others none.  So a node shows its section (`ShowsBlock`) exactly if no other section
of the name has paragraphs, nor the section itself where another one of the name comes later (`SectionBlock.Kept`):
`sectionNodes_show_iff`.

Nodes that show their sections begin before they end, and end before any later one begins.
-/
import CobolAtlas.Proofs.Outline.Contents
import CobolAtlas.Proofs.Source.Blocks

namespace CobolAtlas

set_option autoImplicit false

/-- No other section of the name has paragraphs, nor has this one where a later one has the name. -/
def SectionBlock.Kept (before : List SectionBlock) (b : SectionBlock) (after : List SectionBlock) : Prop :=
  (∀ c ∈ before ++ after, c.head.name = b.head.name → c.body = []) ∧
    ∀ c ∈ after, c.head.name = b.head.name → b.body = []

instance (before : List SectionBlock) (b : SectionBlock) (after : List SectionBlock) :
    Decidable (b.Kept before after) :=
  inferInstanceAs (Decidable ((∀ c ∈ before ++ after, c.head.name = b.head.name → c.body = []) ∧
    ∀ c ∈ after, c.head.name = b.head.name → b.body = []))

/-- The paragraphs of the blocks whose sections have the name. -/
def bodiesNamed (name : Text) (bs : List SectionBlock) : List Paragraph :=
  bs.flatMap fun b => if b.head.name = name then b.body else []

section

variable {name : Text}

theorem bodiesNamed_append (bs cs : List SectionBlock) :
    bodiesNamed name (bs ++ cs) = bodiesNamed name bs ++ bodiesNamed name cs := List.flatMap_append

theorem mem_bodiesNamed {bs : List SectionBlock} {q : Paragraph} :
    q ∈ bodiesNamed name bs ↔ ∃ c ∈ bs, c.head.name = name ∧ q ∈ c.body := by
  simp only [bodiesNamed, List.mem_flatMap, List.mem_ite_nil_right]

theorem bodiesNamed_eq_nil_iff {bs : List SectionBlock} :
    bodiesNamed name bs = [] ↔ ∀ c ∈ bs, c.head.name = name → c.body = [] := by
  simp only [bodiesNamed, List.flatMap_eq_nil_iff, ite_eq_right_iff]

/-- The paragraphs of a name are those of the blocks of that name. -/
theorem Program.Divides.paragraphsIn {p : Program} {bs : List SectionBlock} (divides : p.Divides bs) :
    p.paragraphsIn name = bodiesNamed name bs := by
  have sectioned : p.paragraphsIn name =
      (p.paragraphs.filter (·.inSection.isSome)).filter (·.inSection == some name) := by
    rw [Program.paragraphsIn, List.filter_filter]
    refine List.filter_congr fun q _ => ?_
    cases q.inSection <;> simp
  have each : ∀ b ∈ bs, b.body.filter (·.inSection == some name) = if b.head.name = name then b.body else [] := by
    intro b member
    have names := divides.inSection b member
    by_cases same : b.head.name = name
    · rw [if_pos same, List.filter_eq_self]
      intro q inBody
      rw [names q inBody, same, beq_self_eq_true]
    · rw [if_neg same, List.filter_eq_nil_iff]
      intro q inBody
      simpa [names q inBody] using same
  rw [sectioned, ← divides.bodies, List.filter_flatMap, bodiesNamed]
  exact List.flatMap_congr each

end

namespace Outline

/-- The node shows the section with these paragraphs: they are its children, and it ends where the last of them does, or
on the line of the header where there is none. -/
structure ShowsBlock (o : Outline) (b : SectionBlock) : Prop where
  children : o.children.map (fun x => (x.data.kind, x.data.name)) = b.head.paragraphs.map fun name => (.paragraph, name)
  startLine : o.data.startLine = b.head.line
  endLine : o.data.endLine = (b.body.getLast?.map (·.endLine)).getD b.head.line

/-- Where paragraphs end one after the other, the last line is that of the last. -/
theorem endOr_of_ordered {line : LineNumber} {qs : List Paragraph}
    (ordered : qs.Pairwise fun q r => q.endLine < r.endLine) :
    endOr line qs = (qs.getLast?.map (·.endLine)).getD line := by
  cases qs with
  | nil => rfl
  | cons q qs =>
    rw [endOr]
    induction qs generalizing q with
    | nil => rfl
    | cons r qs ih =>
      obtain ⟨first, rest⟩ := List.pairwise_cons.1 ordered
      have later : q.endLine ≤ r.endLine := UInt32.le_of_lt (first r List.mem_cons_self)
      rw [List.map_cons, List.foldl_cons, LineNumber.max_eq, if_pos later, ih r rest, List.getLast?_cons_cons]

/-- The node of a section with those before and after. -/
theorem ofSections_split {p : Program} (earlier : List ProcedureSection) (s : ProcedureSection)
    (later : List ProcedureSection) :
    ∃ left, left.length = earlier.length ∧
      ofSections p (earlier ++ s :: later) = left ++ ofSection p s later :: ofSections p later := by
  induction earlier with
  | nil => exact ⟨[], rfl, ofSections_cons s later⟩
  | cons t earlier ih =>
    obtain ⟨left, length, split⟩ := ih
    refine ⟨ofSection p t (earlier ++ s :: later) :: left, congrArg (· + 1) length, ?_⟩
    rw [List.cons_append, ofSections_cons, split, List.cons_append]

section

variable {p : Program} {before after : List SectionBlock} {b : SectionBlock}
  (parts : p.blocks = before ++ b :: after) (divides : p.Divides p.blocks)

include parts divides

theorem paragraphsIn_head :
    p.paragraphsIn b.head.name = bodiesNamed b.head.name before ++ b.body ++ bodiesNamed b.head.name after := by
  have own : bodiesNamed b.head.name [b] = b.body := by
    rw [bodiesNamed, List.flatMap_singleton, if_pos rfl]
  rw [divides.paragraphsIn, parts, ← List.singleton_append, bodiesNamed_append, bodiesNamed_append, own,
    List.append_assoc]

/-- A section that keeps its paragraphs has all of its name, and its node holds them. -/
theorem paragraphsIn_of_kept (kept : b.Kept before after) :
    p.paragraphsIn b.head.name = b.body ∧ p.heldBy b.head (after.map (·.head)) = b.body := by
  obtain ⟨others, none⟩ := kept
  obtain ⟨noneBefore, noneAfter⟩ := List.forall_mem_append.1 others
  have own : p.paragraphsIn b.head.name = b.body := by
    rw [paragraphsIn_head parts divides, bodiesNamed_eq_nil_iff.2 noneBefore, bodiesNamed_eq_nil_iff.2 noneAfter,
      List.nil_append, List.append_nil]
  refine ⟨own, ?_⟩
  rw [Program.heldBy, own]
  split
  · rename_i again
    obtain ⟨s, member, same⟩ := List.any_eq_true.1 again
    obtain ⟨c, later, rfl⟩ := List.mem_map.1 member
    exact (none c later (beq_iff_eq.1 same)).symm
  · rfl

theorem children_of_kept (kept : b.Kept before after) :
    (ofSection p b.head (after.map (·.head))).children = b.body.map (ofParagraph p.file) := by
  rw [ofSection, children, (paragraphsIn_of_kept parts divides kept).2]

variable (stacked : p.Stacked)

include stacked

/-- A section that keeps its paragraphs is shown. -/
theorem showsBlock_of_kept (kept : b.Kept before after) :
    (ofSection p b.head (after.map (·.head))).ShowsBlock b := by
  have names : b.body.map (·.name) = b.head.paragraphs :=
    divides.names b (parts ▸ List.mem_append_right before List.mem_cons_self)
  have ordered : (p.paragraphsIn b.head.name).Pairwise fun q r => q.endLine < r.endLine :=
    stacked.ordered.sublist List.filter_sublist
  rw [(paragraphsIn_of_kept parts divides kept).1] at ordered
  refine ⟨?_, rfl, ?_⟩
  · rw [children_of_kept parts divides kept, ← names, List.map_map, List.map_map]
    rfl
  · rw [ofSection, data, (paragraphsIn_of_kept parts divides kept).1]
    exact endOr_of_ordered ordered

omit divides in
/-- No paragraph of another section of the name ends on the line of the header. -/
theorem endLine_ne_of_other {q : Paragraph}
    (other : q ∈ bodiesNamed b.head.name before ++ bodiesNamed b.head.name after) : q.endLine ≠ b.head.line := by
  have heads := stacked.heads
  have apart := stacked.apart
  rw [parts, List.pairwise_append, List.pairwise_cons] at heads apart
  rcases List.mem_append.1 other with earlier | later
  · obtain ⟨c, member, -, inBody⟩ := mem_bodiesNamed.1 earlier
    exact UInt32.ne_of_lt (apart.2.2 c member b List.mem_cons_self q inBody)
  · obtain ⟨c, member, -, inBody⟩ := mem_bodiesNamed.1 later
    have isBlock : c ∈ p.blocks := parts ▸ List.mem_append_right before (List.mem_cons_of_mem b member)
    exact (UInt32.ne_of_lt (UInt32.lt_trans (heads.2.1.1 c member) (stacked.below c isBlock q inBody))).symm

/-- A section that is shown keeps its paragraphs. -/
theorem kept_of_showsBlock (shown : (ofSection p b.head (after.map (·.head))).ShowsBlock b) :
    b.Kept before after := by
  have all := paragraphsIn_head parts divides
  have names : b.body.map (·.name) = b.head.paragraphs :=
    divides.names b (parts ▸ List.mem_append_right before List.mem_cons_self)
  have lengths : (p.heldBy b.head (after.map (·.head))).length = b.body.length := by
    have counts := congrArg List.length shown.children
    rw [← names, ofSection, children] at counts
    simpa only [List.length_map] using counts
  rw [Program.heldBy] at lengths
  have others : bodiesNamed b.head.name before ++ bodiesNamed b.head.name after = [] := by
    split at lengths
    · -- the node holds nothing, so it ends on its first line, where no other paragraph ends
      have nothing : b.body = [] := List.eq_nil_of_length_eq_zero lengths.symm
      have ordered : (p.paragraphsIn b.head.name).Pairwise fun q r => q.endLine < r.endLine :=
        stacked.ordered.sublist List.filter_sublist
      have ends : endOr b.head.line (p.paragraphsIn b.head.name) = b.head.line := by
        have endLine := shown.endLine
        rw [nothing] at endLine
        exact endLine
      rw [endOr_of_ordered ordered, all, nothing, List.append_nil] at ends
      cases last : (bodiesNamed b.head.name before ++ bodiesNamed b.head.name after).getLast? with
      | none => exact List.getLast?_eq_none_iff.1 last
      | some q =>
        rw [last] at ends
        exact absurd ends (endLine_ne_of_other parts stacked (List.mem_of_getLast? last))
    · -- the node holds all of the name, and these are no more than its own
      rw [all, List.length_append, List.length_append] at lengths
      refine List.eq_nil_of_length_eq_zero ?_
      rw [List.length_append]
      omega
  obtain ⟨noneBefore, noneAfter⟩ := List.append_eq_nil_iff.1 others
  refine ⟨List.forall_mem_append.2 ⟨bodiesNamed_eq_nil_iff.1 noneBefore, bodiesNamed_eq_nil_iff.1 noneAfter⟩, ?_⟩
  intro c later same
  have again : (after.map (·.head)).any (·.name == b.head.name) = true :=
    List.any_eq_true.2 ⟨c.head, List.mem_map_of_mem later, beq_iff_eq.2 same⟩
  rw [if_pos again] at lengths
  exact List.eq_nil_of_length_eq_zero lengths.symm

omit divides in
/-- A node that shows its section ends where it begins or below, and above all later sections. -/
theorem lines_of_showsBlock {o : Outline} (shown : o.ShowsBlock b) :
    o.data.startLine ≤ o.data.endLine ∧ ∀ c ∈ after, o.data.endLine < c.head.line := by
  have heads := stacked.heads
  have apart := stacked.apart
  rw [parts, List.pairwise_append, List.pairwise_cons] at heads apart
  rw [shown.startLine, shown.endLine]
  cases last : b.body.getLast? with
  | none => exact ⟨UInt32.le_refl _, heads.2.1.1⟩
  | some q =>
    have inBody := List.mem_of_getLast? last
    have isBlock : b ∈ p.blocks := parts ▸ List.mem_append_right before List.mem_cons_self
    exact ⟨UInt32.le_of_lt (stacked.below b isBlock q inBody), fun c later => apart.2.1.1 c later q inBody⟩

end

/-- **A section node shows its section exactly if the section keeps its paragraphs.**  The outline of a text has one
file, with one section node for each section in order.  The node of a section that keeps its paragraphs holds them.
Where the lines can be numbered, no other node shows its section, and one that does ends where it begins or below, and
above all later ones. -/
theorem sectionNodes_show_iff (path : Path) (text : Text) :
    let p := Program.ofSource path text
    p.Divides p.blocks ∧
    (∀ root, (ofPrograms root [p]).files = [ofProgram p]) ∧
    ∀ before b after, p.blocks = before ++ b :: after →
      ∃ left o right, (ofProgram p).sectionNodes = left ++ o :: right ∧ left.length = before.length ∧
        right.length = after.length ∧
        (b.Kept before after → o.children = b.body.map (ofParagraph p.file)) ∧
        ((Text.lines text).length < 2 ^ 32 →
          (o.ShowsBlock b ↔ b.Kept before after) ∧
          (o.ShowsBlock b → o.data.startLine ≤ o.data.endLine ∧ ∀ x ∈ right, o.data.endLine < x.data.startLine)) := by
  intro p
  have divides : p.Divides p.blocks := Source.ofSource_blocks path text
  refine ⟨divides, fun root => ?_, fun before b after parts => ?_⟩
  · exact List.perm_singleton.1 (files_ofPrograms root [p])
  · have nodes := sectionNodes_ofProgram (Source.ofSource_housed path text)
    obtain ⟨left, length, split⟩ := ofSections_split (p := p) (before.map (·.head)) b.head (after.map (·.head))
    have sections : p.sections = before.map (·.head) ++ b.head :: after.map (·.head) := by
      rw [← divides.heads, parts, List.map_append, List.map_cons]
    have right : (ofSections p (after.map (·.head))).map (·.data.startLine) = after.map (·.head.line) := by
      have lines := congrArg (List.map Prod.snd) (lines_ofSections (p := p) (after.map (·.head)))
      rw [List.map_map, List.map_map, List.map_map] at lines
      exact lines
    refine ⟨left, ofSection p b.head (after.map (·.head)), ofSections p (after.map (·.head)), ?_, ?_, ?_,
      children_of_kept parts divides, fun few => ?_⟩
    · rw [nodes, sections, split]
    · rw [length, List.length_map]
    · have counts := congrArg List.length right
      simpa only [List.length_map] using counts
    · have stacked := Source.ofSource_stacked path text few
      refine ⟨⟨kept_of_showsBlock parts divides stacked, showsBlock_of_kept parts divides stacked⟩, fun shown => ?_⟩
      obtain ⟨forward, above⟩ := lines_of_showsBlock parts stacked shown
      refine ⟨forward, fun x later => ?_⟩
      have line : x.data.startLine ∈ after.map (·.head.line) := right ▸ List.mem_map_of_mem later
      obtain ⟨c, member, same⟩ := List.mem_map.1 line
      exact same ▸ above c member

/-- A section of a name of its own, and two of one name. -/
def mains : Text :=
  Text.joinWith ['\n'] (["PROCEDURE DIVISION.", "INIT SECTION.", "START-PARA.", "    CONTINUE.", "MAIN SECTION.",
    "FIRST-PARA.", "    GOBACK.", "MAIN SECTION.", "LAST-PARA.", "    GOBACK."].map String.toList)

/-- Its first section. -/
def initBlock : SectionBlock :=
  ⟨⟨"INIT".toList, 2, ["START-PARA".toList]⟩, [⟨"START-PARA".toList, some "INIT".toList, 3, 4, []⟩]⟩

/-- Its two sections of one name. -/
def mainBlocks : List SectionBlock :=
  [⟨⟨"MAIN".toList, 5, ["FIRST-PARA".toList]⟩, [⟨"FIRST-PARA".toList, some "MAIN".toList, 6, 7, []⟩]⟩,
    ⟨⟨"MAIN".toList, 8, ["LAST-PARA".toList]⟩, [⟨"LAST-PARA".toList, some "MAIN".toList, 9, 10, []⟩]⟩]

/-- The first node shows its section, and ends above the others. -/
theorem sectionNodes_show_iff_mains :
    (Text.lines mains).length < 2 ^ 32 ∧ initBlock.Kept [] mainBlocks ∧
      ∃ left o right,
        (ofProgram (Program.ofSource ⟨"/src/MAINS.cbl".toList⟩ mains)).sectionNodes = left ++ o :: right ∧
          left.length = 0 ∧ o.ShowsBlock initBlock ∧ ∀ x ∈ right, o.data.endLine < x.data.startLine := by
  have few : (Text.lines mains).length < 2 ^ 32 := by decide +kernel
  have kept : initBlock.Kept [] mainBlocks := by decide +kernel
  have blocks : (Program.ofSource ⟨"/src/MAINS.cbl".toList⟩ mains).blocks = [] ++ initBlock :: mainBlocks := by
    decide +kernel
  obtain ⟨-, -, each⟩ := sectionNodes_show_iff ⟨"/src/MAINS.cbl".toList⟩ mains
  obtain ⟨left, o, right, nodes, length, -, -, numbered⟩ := each [] initBlock mainBlocks blocks
  obtain ⟨iff, lines⟩ := numbered few
  have shown : o.ShowsBlock initBlock := iff.2 kept
  exact ⟨few, kept, left, o, right, nodes, length, shown, (lines shown).2⟩

/-- The first of two sections of one name reaches to the end of the other and has no paragraph; the second has those of
both. -/
theorem sectionNodes_of_two_mains :
    let p := Program.ofSource ⟨"/src/MAINS.cbl".toList⟩ mains
    p.sections.map (fun s => (s.name, s.line, s.paragraphs)) =
        [("INIT".toList, 2, ["START-PARA".toList]), ("MAIN".toList, 5, ["FIRST-PARA".toList]),
          ("MAIN".toList, 8, ["LAST-PARA".toList])] ∧
      p.paragraphs.map (fun q => (q.name, q.line, q.endLine)) =
        [("START-PARA".toList, 3, 4), ("FIRST-PARA".toList, 6, 7), ("LAST-PARA".toList, 9, 10)] ∧
      (ofProgram p).sectionNodes.map (fun o => (o.data.startLine, o.data.endLine, o.children.map (·.data.name))) =
        [(2, 4, ["START-PARA".toList]), (5, 10, []), (8, 10, ["FIRST-PARA".toList, "LAST-PARA".toList])] := by
  decide +kernel

end Outline

end CobolAtlas
