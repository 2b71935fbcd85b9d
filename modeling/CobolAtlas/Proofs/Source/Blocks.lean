/-
# CobolAtlas.Proofs.Source.Blocks -- the paragraphs of each section by position

A program lists the paragraphs of a section by name, and sections may share a name.  By position each section has
paragraphs of its own: those that opened while it was open.  They are the next ones, as many as the section lists, among
the paragraphs that stand in sections (`Program.blocks`), and they have the names that it lists (`ofSource_blocks`).

A header closes the section that is open with its last paragraph, so the paragraphs of a section end before the header
of any later one, and the blocks are stacked (`ofSource_stacked`).  `Assembly.Blocks` carries that from event to event:
the sections that are closed are settled with their paragraphs, and `current` are the closed paragraphs of the section
that is open.
-/
import CobolAtlas.Proofs.Source.Extents

namespace CobolAtlas

set_option autoImplicit false

/-! ## Blocks -/

/-- A section and paragraphs of its own. -/
structure SectionBlock where
  head : ProcedureSection
  body : List Paragraph
deriving DecidableEq

/-- Each section takes the next paragraphs, as many as it lists. -/
def blocksOf : List ProcedureSection → List Paragraph → List SectionBlock
  | [], _ => []
  | s :: later, qs => ⟨s, qs.take s.paragraphs.length⟩ :: blocksOf later (qs.drop s.paragraphs.length)

/-- The sections of a program, each with its own paragraphs. -/
def Program.blocks (p : Program) : List SectionBlock :=
  blocksOf p.sections (p.paragraphs.filter (·.inSection.isSome))

theorem blocksOf_heads (sections : List ProcedureSection) (qs : List Paragraph) :
    (blocksOf sections qs).map (·.head) = sections := by
  induction sections generalizing qs with
  | nil => rfl
  | cons s later ih => rw [blocksOf, List.map_cons, ih]

/-- Blocks that are as long as their lists are those that the sections take. -/
theorem blocksOf_of_blocks {bs : List SectionBlock} (lengths : ∀ b ∈ bs, b.body.length = b.head.paragraphs.length) :
    blocksOf (bs.map (·.head)) (bs.flatMap (·.body)) = bs := by
  induction bs with
  | nil => rfl
  | cons b bs ih =>
    obtain ⟨first, others⟩ := List.forall_mem_cons.1 lengths
    rw [List.map_cons, List.flatMap_cons, blocksOf, ← first, List.take_left, List.drop_left, ih others]

/-- What relates the paragraphs to all that is listed relates each block to its own list. -/
theorem forall₂_blocksOf {α : Type} {R : α → Paragraph → Prop} {entry : ProcedureSection → Text → α}
    {sections : List ProcedureSection} {qs : List Paragraph}
    (listed : List.Forall₂ R (sections.flatMap fun s => s.paragraphs.map (entry s)) qs) :
    (blocksOf sections qs).flatMap (·.body) = qs ∧
      ∀ b ∈ blocksOf sections qs, List.Forall₂ R (b.head.paragraphs.map (entry b.head)) b.body := by
  induction sections generalizing qs with
  | nil =>
    cases listed
    exact ⟨rfl, fun b member => absurd member List.not_mem_nil⟩
  | cons s later ih =>
    rw [List.flatMap_cons] at listed
    have here := List.forall₂_take s.paragraphs.length listed
    have below := List.forall₂_drop s.paragraphs.length listed
    have length : s.paragraphs.length = (s.paragraphs.map (entry s)).length := (List.length_map _).symm
    rw [length, List.take_left, ← length] at here
    rw [length, List.drop_left, ← length] at below
    obtain ⟨bodies, each⟩ := ih below
    rw [blocksOf]
    refine ⟨?_, List.forall_mem_cons.2 ⟨here, each⟩⟩
    rw [List.flatMap_cons, bodies, List.take_append_drop]

/-- The blocks are the sections in order with all paragraphs that stand in sections, and a block holds the paragraphs
that its section lists. -/
structure Program.Divides (p : Program) (bs : List SectionBlock) : Prop where
  heads : bs.map (·.head) = p.sections
  bodies : bs.flatMap (·.body) = p.paragraphs.filter (·.inSection.isSome)
  names : ∀ b ∈ bs, b.body.map (·.name) = b.head.paragraphs
  inSection : ∀ b ∈ bs, ∀ q ∈ b.body, q.inSection = some b.head.name

/-- The named pairs are those of the paragraphs that stand in sections. -/
theorem forall₂_namedPairs (qs : List Paragraph) :
    List.Forall₂ (fun (pair : Text × Text) (q : Paragraph) => q.inSection = some pair.1 ∧ q.name = pair.2)
      (namedPairs qs) (qs.filter (·.inSection.isSome)) := by
  induction qs with
  | nil => exact List.Forall₂.nil
  | cons q qs ih =>
    cases inSection : q.inSection with
    | none =>
      have silent : namedPairs (q :: qs) = namedPairs qs := by simp [namedPairs, inSection]
      rw [silent, List.filter_cons_of_neg (by simp [inSection])]
      exact ih
    | some name =>
      have told : namedPairs (q :: qs) = (name, q.name) :: namedPairs qs := by simp [namedPairs, inSection]
      rw [told, List.filter_cons_of_pos (by simp [inSection])]
      exact List.Forall₂.cons ⟨inSection, rfl⟩ ih

/-- Where sections list what the paragraphs name, the blocks of the program do so. -/
theorem Program.blocks_divide {p : Program} (agree : listedPairs p.sections = namedPairs p.paragraphs) :
    p.Divides p.blocks := by
  have named := forall₂_namedPairs p.paragraphs
  rw [← agree] at named
  obtain ⟨bodies, each⟩ := forall₂_blocksOf named
  have listed : ∀ b ∈ p.blocks, (∀ q ∈ b.body, q.inSection = some b.head.name) ∧
      List.Forall₂ (fun (q : Paragraph) name => q.name = name) b.body b.head.paragraphs := by
    intro b member
    have both := (each b member).flip
    rw [List.forall₂_map_right_iff] at both
    exact (List.forall₂_and_left _ _).1 both
  refine ⟨blocksOf_heads _ _, bodies, fun b member => ?_, fun b member => (listed b member).1⟩
  have names := List.forall₂_map_left_iff.2 (listed b member).2
  rwa [List.forall₂_eq_eq_eq] at names

/-- Each block lies below the one before, its paragraphs one after the other below its header. -/
structure Program.Stacked (p : Program) : Prop where
  heads : p.blocks.Pairwise fun b c => b.head.line < c.head.line
  apart : p.blocks.Pairwise fun b c => ∀ q ∈ b.body, q.endLine < c.head.line
  below : ∀ b ∈ p.blocks, ∀ q ∈ b.body, b.head.line < q.endLine
  ordered : p.paragraphs.Pairwise fun q r => q.endLine < r.endLine

theorem Program.Extents.stacked {p : Program} {last : LineNumber} (extents : p.Extents last)
    (apart : p.blocks.Pairwise fun b c => ∀ q ∈ b.body, q.endLine < c.head.line) : p.Stacked where
  heads := by
    have lines := extents.sections
    rw [← blocksOf_heads p.sections (p.paragraphs.filter (·.inSection.isSome)), List.pairwise_map] at lines
    exact lines
  apart := apart
  below := by
    intro b member q inBody
    have listed : List.Forall₂ Listing.Heads
        (p.sections.flatMap fun s => s.paragraphs.map fun name => ⟨s.name, s.line, name⟩)
        (p.paragraphs.filter (·.inSection.isSome)) := extents.listed
    obtain ⟨bodies, each⟩ := forall₂_blocksOf listed
    have heads := (each b member).flip
    rw [List.forall₂_map_right_iff] at heads
    have lines : List.Forall₂ (fun (r : Paragraph) _ => b.head.line < r.line ∧ True) b.body b.head.paragraphs :=
      heads.imp fun _ _ listed => ⟨listed.above, trivial⟩
    have above : ∀ r ∈ b.body, b.head.line < r.line := ((List.forall₂_and_left _ _).1 lines).1
    have isParagraph : q ∈ p.paragraphs := by
      refine List.mem_of_mem_filter (p := fun r : Paragraph => r.inSection.isSome) ?_
      rw [← bodies]
      exact List.mem_flatMap.2 ⟨b, member, inBody⟩
    exact UInt32.lt_of_lt_of_le (above q inBody) (extents.paragraphs q isParagraph).forward
  ordered := extents.disjoint.imp_of_mem fun _ member before =>
    UInt32.lt_of_lt_of_le before (extents.paragraphs _ member).forward

namespace Assembly

/-! ## Sections that are closed -/

/-- The sections that are closed are settled with the paragraphs in `done`; `current` are those of the section that is
open, as far as they are closed. -/
structure Blocks (a : Assembly) (done : List SectionBlock) (current : List Paragraph) : Prop where
  closedSections : done.map (·.head) = a.closedSections
  closedParagraphs : done.flatMap (·.body) ++ current = a.closedParagraphs.filter (·.inSection.isSome)
  lengths : ∀ b ∈ done, b.body.length = b.head.paragraphs.length
  apart : done.Pairwise fun b c => ∀ q ∈ b.body, q.endLine < c.head.line
  count : ∀ s, a.openSection = some s → current.length + a.openParagraph.toList.length = s.paragraphs.length
  above : ∀ s, a.openSection = some s → ∀ b ∈ done, ∀ q ∈ b.body, q.endLine < s.line
  outside : a.openSection = none → current = []
  stands : ∀ q, a.openParagraph = some q → q.inSection.isSome = a.openSection.isSome

theorem start_blocks (path : Path) (backend : Text) : (start path backend).Blocks [] [] where
  closedSections := rfl
  closedParagraphs := rfl
  lengths := fun b member => absurd member List.not_mem_nil
  apart := List.Pairwise.nil
  count := fun s isOpen => by cases isOpen
  above := fun s isOpen => by cases isOpen
  outside := fun _ => rfl
  stands := fun q isOpen => by cases isOpen

variable {a : Assembly} {done : List SectionBlock} {current : List Paragraph} {bound line : LineNumber}

/-- A paragraph that is closed is the last one of the section that is open. -/
theorem closeParagraph_blocks (blocks : a.Blocks done current) : ∃ current', a.closeParagraph.Blocks done current' := by
  cases isOpen : a.openParagraph with
  | none =>
    rw [closeParagraph_of_none isOpen]
    exact ⟨current, blocks⟩
  | some q =>
    have stands := blocks.stands q isOpen
    have count := blocks.count
    rw [isOpen] at count
    rw [closeParagraph_of_some isOpen]
    refine ⟨current ++ [{ q with endLine := max q.endLine a.lastLine }].filter (·.inSection.isSome),
      blocks.closedSections, ?_, blocks.lengths, blocks.apart, fun s inSection => ?_, blocks.above, fun noSection => ?_,
      fun q isOpen => (by cases isOpen)⟩
    · rw [← List.append_assoc, blocks.closedParagraphs, List.filter_append]
    · rw [inSection] at stands
      rw [← count s inSection, List.filter_singleton, stands, List.length_append]
      rfl
    · rw [show a.openSection = none from noSection] at stands
      rw [blocks.outside noSection, List.filter_singleton, stands]
      rfl

/-- A section that is closed is settled with its paragraphs. -/
theorem closed_blocks (blocks : a.Blocks done current) : ∃ done', a.closed.Blocks done' [] := by
  obtain ⟨current, closing⟩ := closeParagraph_blocks blocks
  have noneOpen := closeParagraph_openParagraph a
  rw [closed]
  generalize a.closeParagraph = b at closing noneOpen ⊢
  cases inSection : b.openSection with
  | none =>
    rw [closeSection_of_none inSection]
    have nothing := closing.outside inSection
    rw [nothing] at closing
    exact ⟨done, closing⟩
  | some s =>
    have count := closing.count s inSection
    rw [noneOpen, Option.toList_none, List.length_nil, Nat.add_zero] at count
    refine ⟨done ++ [⟨s, current⟩], ?_, ?_, ?_, ?_, fun s isOpen => (by cases isOpen), fun s isOpen => (by cases isOpen),
      fun _ => rfl, fun q isOpen => ?_⟩
    · rw [List.map_append, closing.closedSections, closeSection, sections, inSection]
      rfl
    · rw [List.append_nil, List.flatMap_append, List.flatMap_singleton]
      exact closing.closedParagraphs
    · exact List.forall_mem_append.2 ⟨closing.lengths, List.forall_mem_singleton.2 count⟩
    · refine List.pairwise_append.2 ⟨closing.apart, List.pairwise_singleton _ _, fun b earlier c last => ?_⟩
      rw [List.mem_singleton.1 last]
      exact closing.above s inSection b earlier
    · rw [show b.openParagraph = some q from isOpen] at noneOpen
      cases noneOpen

/-- A section opens below all paragraphs that are closed. -/
theorem enterProcedureSection_blocks (blocks : a.Blocks done current)
    (below : ∀ q ∈ a.closed.closedParagraphs, q.endLine < line) (name : Text) :
    ∃ done' current', (a.enterProcedureSection name line).Blocks done' current' := by
  obtain ⟨done, settled⟩ := closed_blocks blocks
  have noneOpen : (a.enterProcedureSection name line).openParagraph = none := closed_openParagraph a
  refine ⟨done, [], settled.closedSections, settled.closedParagraphs, settled.lengths, settled.apart, fun s isOpen => ?_,
    fun s isOpen b earlier q inBody => ?_, fun _ => rfl, fun q isOpen => ?_⟩
  · obtain rfl := Option.some.inj isOpen
    rw [noneOpen]
    rfl
  · obtain rfl := Option.some.inj isOpen
    refine below q (List.mem_of_mem_filter (p := fun q : Paragraph => q.inSection.isSome) ?_)
    rw [← settled.closedParagraphs, List.append_nil]
    exact List.mem_flatMap.2 ⟨b, earlier, inBody⟩
  · rw [noneOpen] at isOpen
    cases isOpen

/-- A paragraph opens in the section that is open. -/
theorem enterParagraph_blocks (blocks : a.Blocks done current) (name : Text) (line : LineNumber) :
    ∃ current', (a.enterParagraph name line).Blocks done current' := by
  obtain ⟨current, closing⟩ := closeParagraph_blocks blocks
  have noneOpen := closeParagraph_openParagraph a
  unfold enterParagraph
  generalize a.closeParagraph = b at closing noneOpen ⊢
  have count := closing.count
  rw [noneOpen] at count
  refine ⟨current, closing.closedSections, closing.closedParagraphs, closing.lengths, closing.apart, fun s isOpen => ?_,
    fun s isOpen => ?_, fun noSection => closing.outside (Option.map_eq_none_iff.1 noSection), fun q isOpen => ?_⟩
  · obtain ⟨t, inSection, rfl⟩ := Option.map_eq_some_iff.1 isOpen
    have before := count t inSection
    rw [Option.toList_none, List.length_nil, Nat.add_zero] at before
    rw [List.length_append, ← before]
    rfl
  · obtain ⟨t, inSection, rfl⟩ := Option.map_eq_some_iff.1 isOpen
    exact closing.above t inSection
  · obtain rfl := Option.some.inj isOpen
    exact Option.isSome_map.trans Option.isSome_map.symm

theorem appendStatement_blocks (blocks : a.Blocks done current) (s : Statement) :
    (a.appendStatement s).Blocks done current := by
  unfold appendStatement
  split
  · exact blocks
  · rename_i p isOpen
    have count := blocks.count
    rw [isOpen] at count
    refine ⟨blocks.closedSections, blocks.closedParagraphs, blocks.lengths, blocks.apart, count, blocks.above,
      blocks.outside, fun q isSame => ?_⟩
    obtain rfl := Option.some.inj isSame
    exact blocks.stands p isOpen

/-- Every event keeps the blocks, where a section that opens lies below the paragraphs before. -/
theorem step_blocks (blocks : a.Blocks done current) {e : Event}
    (below : ∀ name line, e = .sectionHeader name line ∨ e = .procedureSection name line →
      ∀ q ∈ a.closed.closedParagraphs, q.endLine < line) :
    ∃ done' current', (a.step e).Blocks done' current' := by
  have effect := step_effect a e
  generalize a.step e = b at effect ⊢
  cases effect with
  | ignored | named | counted | observed | dataSection | item =>
    exact ⟨done, current, blocks.closedSections, blocks.closedParagraphs, blocks.lengths, blocks.apart, blocks.count,
      blocks.above, blocks.outside, blocks.stands⟩
  | division name line =>
    obtain ⟨done, settled⟩ := closed_blocks blocks
    exact ⟨done, [], settled.closedSections, settled.closedParagraphs, settled.lengths, settled.apart, settled.count,
      settled.above, settled.outside, settled.stands⟩
  | procedureSection name line opens =>
    have isHeader : e = .sectionHeader name line ∨ e = .procedureSection name line := by
      cases opens with
      | procedureSection => exact .inr rfl
      | sectionHeader => exact .inl rfl
    exact enterProcedureSection_blocks blocks (below name line isHeader) name
  | paragraph name line => exact ⟨done, enterParagraph_blocks blocks name line⟩
  | entry s =>
    obtain ⟨current, opened⟩ := enterParagraph_blocks blocks Program.entryParagraph s.line
    exact ⟨done, current, appendStatement_blocks opened s⟩
  | statement s => exact ⟨done, current, appendStatement_blocks blocks s⟩

/-- Events that open no section. -/
theorem run_blocks (blocks : a.Blocks done current) {events : List Event}
    (noHeader : ∀ name line, Event.sectionHeader name line ∉ events ∧ Event.procedureSection name line ∉ events) :
    ∃ done' current', (a.run events).Blocks done' current' := by
  induction events generalizing a done current with
  | nil => exact ⟨done, current, blocks⟩
  | cons e events ih =>
    obtain ⟨done, current, stepped⟩ := step_blocks blocks (e := e) fun name line isHeader => by
      obtain ⟨noSection, noProcedureSection⟩ := noHeader name line
      rcases isHeader with rfl | rfl
      · exact absurd List.mem_cons_self noSection
      · exact absurd List.mem_cons_self noProcedureSection
    refine ih stepped fun name line => ⟨fun member => ?_, fun member => ?_⟩
    · exact (noHeader name line).1 (List.mem_cons_of_mem e member)
    · exact (noHeader name line).2 (List.mem_cons_of_mem e member)

/-- At the end all sections are settled. -/
theorem finish_blocks (blocks : a.Blocks done current) :
    a.finish.blocks.Pairwise fun b c => ∀ q ∈ b.body, q.endLine < c.head.line := by
  obtain ⟨done, settled⟩ := closed_blocks blocks
  have heads : done.map (·.head) = a.finish.sections := by
    rw [settled.closedSections, closed, closeSection, closeParagraph_sections]
    rfl
  have bodies : done.flatMap (·.body) = a.finish.paragraphs.filter (·.inSection.isSome) :=
    (List.append_nil _).symm.trans settled.closedParagraphs
  rw [Program.blocks, ← heads, ← bodies, blocksOf_of_blocks settled.lengths]
  exact settled.apart

end Assembly

namespace Source

open Text Assembly

/-- A code line below everything that was recorded keeps the blocks. -/
theorem advance_blocks {scan : Scan} {bound : LineNumber} {done : List SectionBlock} {current : List Paragraph}
    (blocks : scan.assembly.Blocks done current) (extents : scan.assembly.Extents bound) {c : LineNumber × Text}
    (below : bound < c.1) : ∃ done' current', (scan.advance c).assembly.Blocks done' current' := by
  obtain ⟨events, report, advanced⟩ := scan.exists_report c
  rw [advanced]
  cases report with
  | header h =>
    refine step_blocks blocks fun name line isHeader q member => ?_
    have ended := (closed_extents extents).endLine_le (List.mem_append_left _ member)
    have there : line = c.1 := by
      rcases isHeader with isHeader | isHeader
      · exact header_line? h (by rw [isHeader]; rfl)
      · exact header_line? h (by rw [isHeader]; rfl)
    rw [there]
    exact UInt32.lt_of_le_of_lt ended below
  | item | paragraph | statements => exact run_blocks blocks fun name line => by simp
  | silent => exact ⟨done, current, blocks⟩

theorem foldl_advance_blocks {codes : List (LineNumber × Text)} {scan : Scan} {bound : LineNumber}
    {done : List SectionBlock} {current : List Paragraph} (blocks : scan.assembly.Blocks done current)
    (extents : scan.assembly.Extents bound) (ascending : codes.Pairwise fun c d => c.1 < d.1)
    (above : ∀ c ∈ codes, bound < c.1) :
    ∃ last done' current', (codes.foldl Scan.advance scan).assembly.Extents last ∧
      (codes.foldl Scan.advance scan).assembly.Blocks done' current' := by
  induction codes generalizing scan bound done current with
  | nil => exact ⟨bound, done, current, extents, blocks⟩
  | cons c codes ih =>
    obtain ⟨first, rest⟩ := List.pairwise_cons.1 ascending
    have below := above c List.mem_cons_self
    obtain ⟨done, current, advanced⟩ := advance_blocks blocks extents below
    exact ih advanced (advance_extents extents below) rest first

/-- The blocks of a text are stacked, where its lines can be numbered. -/
theorem ofSource_stacked (path : Path) (text : Text) (few : (lines text).length < 2 ^ 32) :
    (Program.ofSource path text).Stacked := by
  have start : (Scan.mk (start path backendName) true).assembly.Extents 0 := start_extents path backendName
  have above : ∀ c ∈ codeLines text, 0 < c.1 := by
    intro c member
    obtain ⟨n, number, low, high⟩ := number_of_mem_numberedCode member
    have zero : (0 : LineNumber).toNat = 0 := rfl
    rw [number, UInt32.lt_iff_toNat_lt, toNat_number (by omega)]
    omega
  obtain ⟨last, done, current, extents, blocks⟩ := foldl_advance_blocks (start_blocks path backendName) start
    (numberedCode_ascending (by omega)) above
  exact (finish_extents extents).stacked (finish_blocks blocks)

/-- The blocks hold the paragraphs that the sections list. -/
theorem ofSource_blocks (path : Path) (text : Text) :
    (Program.ofSource path text).Divides (Program.ofSource path text).blocks := by
  have start : (Scan.mk (start path backendName) true).assembly.Agrees := start_agrees path backendName
  exact Program.blocks_divide
    (finish_pairs (foldl_advance_keeps (fun _ _ agrees => run_agrees agrees _) (codeLines text) start))

end Source

end CobolAtlas
