/-
# CobolAtlas.Proofs.FileSystem.Lookup -- where paths lead as files come

A file system grows (`Grows`) when what is there stays of its kind: directories and links stay as they are, a
file stays a file, though perhaps with other content, and no link is added.  Look-ups see no more of an entry
than that.  So a path that leads somewhere leads there in every file system that it grows to
(`Grows.resolve`), and the place found for a file that may be new is where its path leads once the file is
there (`Grows.resolve_of_resolveNew`).

A look-up that succeeds has gone step by step, and each step did one of seven things: `Leads` is that, and
`follow_eq_ok` says so.  What holds of all look-ups is shown by induction on it.

A place that is found is a directory with all those above it (`AllDirectories`), or it is in such a directory and is a
file or free (`lookUp_cases`).  It is never a link.
-/
import CobolAtlas.FileSystem.Write
import CobolAtlas.Proofs.Path.Components

namespace CobolAtlas

set_option autoImplicit false

/-- What look-ups see of an entry: all but the content of a file. -/
def Entry.form : Entry → Entry
  | .file .. => .file [] 0 false
  | e => e

theorem Entry.form_eq_file {e : Entry} {content : Bytes} {modified : Nat} {executable : Bool}
    (same : e.form = (Entry.file content modified executable).form) :
    ∃ content modified executable, e = .file content modified executable := by
  cases e with
  | file content modified executable => exact ⟨_, _, _, rfl⟩
  | directory => cases same
  | link target => cases same

theorem Entry.form_eq_directory {e : Entry} (same : e.form = Entry.directory.form) : e = .directory := by
  cases e with
  | directory => rfl
  | file => cases same
  | link => cases same

theorem Entry.form_eq_link {e : Entry} {target : Path} (same : e.form = (Entry.link target).form) :
    e = .link target := by
  cases e with
  | link target' => exact same
  | file => cases same
  | directory => cases same

namespace FileSystem

variable {fs fs' fs'' : FileSystem} {l : Location}

/-- Is there a file? -/
def FileAt (fs : FileSystem) (l : Location) : Prop :=
  ∃ content modified executable, fs.entry? l = some (.file content modified executable)

/-! ## Growth -/

/-- What was there is there still and of its kind, and there are no links but those that were there. -/
structure Grows (fs fs' : FileSystem) : Prop where
  current : fs'.current = fs.current
  keeps : ∀ l e, fs.entry? l = some e → ∃ e', fs'.entry? l = some e' ∧ e'.form = e.form
  links : ∀ l target, fs'.entry? l = some (.link target) → fs.entry? l = some (.link target)

theorem Grows.refl (fs : FileSystem) : Grows fs fs := ⟨rfl, fun _ e there => ⟨e, there, rfl⟩, fun _ _ there => there⟩

theorem Grows.trans (grows : Grows fs fs') (grows' : Grows fs' fs'') : Grows fs fs'' where
  current := grows'.current.trans grows.current
  keeps l e there := by
    obtain ⟨e', there', same⟩ := grows.keeps l e there
    obtain ⟨e'', there'', same'⟩ := grows'.keeps l e' there'
    exact ⟨e'', there'', same'.trans same⟩
  links l target there := grows.links l target (grows'.links l target there)

theorem Grows.directory (grows : Grows fs fs') (there : fs.entry? l = some .directory) :
    fs'.entry? l = some .directory := by
  obtain ⟨e, there', same⟩ := grows.keeps l .directory there
  rw [there', Entry.form_eq_directory same]

/-! ## Steps -/

section Leads

variable {mayMiss : Bool} {jump : Location → List Text → Except LookupError Location}

/-- The step names an entry of the directory, for it is not one of the steps that stay or go up. -/
structure NamesEntry (step : Text) : Prop where
  moves : ¬(step = [] ∨ step = ['.'])
  notUp : step ≠ ['.', '.']
  short : isShort step = true

/-- The steps lead from a directory to `l`, one after the other; at a link, `jump` leads on. -/
inductive Leads (fs : FileSystem) (mayMiss : Bool) (jump : Location → List Text → Except LookupError Location)
    (l : Location) : Location → List Text → Prop
  | arrived : Leads fs mayMiss jump l l []
  | idle {here : Location} {step : Text} {rest : List Text} (stays : step = [] ∨ step = ['.'])
      (goesOn : Leads fs mayMiss jump l here rest) : Leads fs mayMiss jump l here (step :: rest)
  | up {here : Location} {rest : List Text} (goesOn : Leads fs mayMiss jump l here.dropLast rest) :
      Leads fs mayMiss jump l here (['.', '.'] :: rest)
  | down {here : Location} {step : Text} {rest : List Text} (names : NamesEntry step)
      (there : fs.entry? (here ++ [step]) = some .directory)
      (goesOn : Leads fs mayMiss jump l (here ++ [step]) rest) : Leads fs mayMiss jump l here (step :: rest)
  | file {here : Location} {step : Text} (names : NamesEntry step) (isLast : l = here ++ [step])
      (there : fs.FileAt l) : Leads fs mayMiss jump l here [step]
  | new {here : Location} {step : Text} (names : NamesEntry step) (isLast : l = here ++ [step])
      (free : fs.entry? l = none) (missing : mayMiss = true) : Leads fs mayMiss jump l here [step]
  | link {here : Location} {step : Text} {rest : List Text} {target : Path} (names : NamesEntry step)
      (there : fs.entry? (here ++ [step]) = some (.link target))
      (jumps : jump (if target.isAbsolute then [] else here) (stepsOf target ++ rest) = .ok l) :
      Leads fs mayMiss jump l here (step :: rest)

theorem follow_of_names {here : Location} {step : Text} (names : NamesEntry step) (rest : List Text) :
    fs.follow mayMiss jump here (step :: rest) =
      match fs.entry? (here ++ [step]) with
      | none => if mayMiss ∧ rest.isEmpty then .ok (here ++ [step]) else .error .missing
      | some .directory => fs.follow mayMiss jump (here ++ [step]) rest
      | some (.file ..) => if rest.isEmpty then .ok (here ++ [step]) else .error .notDirectory
      | some (.link target) => jump (if target.isAbsolute then [] else here) (stepsOf target ++ rest) := by
  rw [follow, if_neg names.moves, if_neg names.notUp, names.short]
  rfl

theorem Leads.follow_eq {here : Location} {steps : List Text} (leads : fs.Leads mayMiss jump l here steps) :
    fs.follow mayMiss jump here steps = .ok l := by
  induction leads with
  | arrived => rfl
  | idle stays _ ih => rw [follow, if_pos stays, ih]
  | up _ ih => rw [follow, if_neg (by decide), if_pos rfl, ih]
  | down names there _ ih => rw [follow_of_names names, there, ih]
  | file names isLast there =>
    subst isLast
    obtain ⟨_, _, _, there⟩ := there
    rw [follow_of_names names, there]
    rfl
  | new names isLast free missing =>
    subst isLast
    rw [follow_of_names names, free]
    exact if_pos ⟨missing, rfl⟩
  | link names there jumps =>
    rw [follow_of_names names, there]
    exact jumps

theorem leads_of_follow {here : Location} {steps : List Text} (found : fs.follow mayMiss jump here steps = .ok l) :
    fs.Leads mayMiss jump l here steps := by
  induction steps generalizing here with
  | nil =>
    cases found
    exact .arrived
  | cons step rest ih =>
    by_cases stays : step = [] ∨ step = ['.']
    · rw [follow, if_pos stays] at found
      exact .idle stays (ih found)
    by_cases up : step = ['.', '.']
    · subst up
      rw [follow, if_neg stays, if_pos rfl] at found
      exact .up (ih found)
    by_cases short : isShort step = true
    · have names : NamesEntry step := ⟨stays, up, short⟩
      rw [follow_of_names names] at found
      split at found
      · rename_i free
        split at found
        · rename_i last
          cases found
          obtain rfl : rest = [] := List.isEmpty_iff.1 last.2
          exact .new names rfl free last.1
        · cases found
      · rename_i there
        exact .down names there (ih found)
      · rename_i there
        split at found
        · rename_i last
          cases found
          obtain rfl : rest = [] := List.isEmpty_iff.1 last
          exact .file names rfl ⟨_, _, _, there⟩
        · cases found
      · rename_i there
        exact .link names there found
    · rw [follow, if_neg stays, if_neg up, if_pos (by simp [short])] at found
      cases found

/-- The relation is what the look-up computes. -/
theorem follow_eq_ok {here : Location} {steps : List Text} :
    fs.follow mayMiss jump here steps = .ok l ↔ fs.Leads mayMiss jump l here steps :=
  ⟨leads_of_follow, Leads.follow_eq⟩

end Leads

/-! ## Look-ups in a file system that has grown -/

theorem Grows.fileAt (grows : Grows fs fs') (there : fs.FileAt l) : fs'.FileAt l := by
  obtain ⟨content, modified, executable, there⟩ := there
  obtain ⟨e, there', same⟩ := grows.keeps l _ there
  obtain ⟨content, modified, executable, rfl⟩ := Entry.form_eq_file same
  exact ⟨content, modified, executable, there'⟩

theorem Grows.link (grows : Grows fs fs') {target : Path} (there : fs.entry? l = some (.link target)) :
    fs'.entry? l = some (.link target) := by
  obtain ⟨e, there', same⟩ := grows.keeps l _ there
  rw [there', Entry.form_eq_link same]

theorem Grows.leads (grows : Grows fs fs') {mayMiss : Bool}
    {jump jump' : Location → List Text → Except LookupError Location}
    (file : mayMiss = true → fs'.FileAt l)
    (jumps : ∀ here steps, jump here steps = .ok l → jump' here steps = .ok l) {here : Location} {steps : List Text}
    (leads : fs.Leads mayMiss jump l here steps) : fs'.Leads false jump' l here steps := by
  induction leads with
  | arrived => exact .arrived
  | idle stays _ ih => exact .idle stays ih
  | up _ ih => exact .up ih
  | down names there _ ih => exact .down names (grows.directory there) ih
  | file names isLast there => exact .file names isLast (grows.fileAt there)
  | new names isLast _ missing => exact .file names isLast (file missing)
  | link names there jumped => exact .link names (grows.link there) (jumps _ _ jumped)

theorem Grows.followLinks (grows : Grows fs fs') {mayMiss : Bool} (file : mayMiss = true → fs'.FileAt l) {links : Nat}
    {here : Location} {steps : List Text} (found : fs.followLinks mayMiss links here steps = .ok l) :
    fs'.followLinks false links here steps = .ok l := by
  induction links generalizing here steps with
  | zero =>
    rw [FileSystem.followLinks] at found ⊢
    exact (grows.leads file (fun _ _ tooMany => by cases tooMany) (leads_of_follow found)).follow_eq
  | succ links ih =>
    rw [FileSystem.followLinks] at found ⊢
    exact (grows.leads file (fun _ _ => ih) (leads_of_follow found)).follow_eq

theorem lookUp_eq_ok {mayMiss : Bool} {p : Path} : fs.lookUp mayMiss p = .ok l ↔
    p.text.isEmpty = false ∧ isNameable p = true ∧ fs.followLinks mayMiss 40 (fs.origin p) (stepsOf p) = .ok l := by
  rw [FileSystem.lookUp]
  cases p.text.isEmpty <;> cases isNameable p <;> simp

theorem Grows.lookUp (grows : Grows fs fs') {mayMiss : Bool} (file : mayMiss = true → fs'.FileAt l) {p : Path}
    (found : fs.lookUp mayMiss p = .ok l) : fs'.resolve p = .ok l := by
  obtain ⟨nonempty, nameable, followed⟩ := lookUp_eq_ok.1 found
  have origin : fs'.origin p = fs.origin p := by rw [FileSystem.origin, grows.current, FileSystem.origin]
  rw [← origin] at followed
  exact lookUp_eq_ok.2 ⟨nonempty, nameable, grows.followLinks file followed⟩

/-- A path that leads somewhere leads there still. -/
theorem Grows.resolve (grows : Grows fs fs') {p : Path} (found : fs.resolve p = .ok l) : fs'.resolve p = .ok l := by
  rw [FileSystem.resolve] at found
  exact grows.lookUp (fun missing => by cases missing) found

/-- Where a new file is to be, its path leads once it is there. -/
theorem Grows.resolve_of_resolveNew (grows : Grows fs fs') {p : Path} (found : fs.resolveNew p = .ok l)
    (file : fs'.FileAt l) : fs'.resolve p = .ok l := grows.lookUp (fun _ => file) found

/-! ## What is found -/

/-- The place is a directory, and so are all above it. -/
def AllDirectories (fs : FileSystem) (l : Location) : Prop := ∀ above, above <+: l → fs.entry? above = some .directory

theorem AllDirectories.nil (fs : FileSystem) : fs.AllDirectories [] := by
  intro above isAbove
  rw [List.prefix_nil.1 isAbove]
  rfl

theorem AllDirectories.dropLast (all : fs.AllDirectories l) : fs.AllDirectories l.dropLast :=
  fun above isAbove => all above (isAbove.trans l.dropLast_prefix)

theorem AllDirectories.append {name : Text} (all : fs.AllDirectories l)
    (there : fs.entry? (l ++ [name]) = some .directory) :
    fs.AllDirectories (l ++ [name]) := by
  intro above isAbove
  rcases List.prefix_concat_iff.1 isAbove with rfl | isAbove
  · exact there
  · exact all above isAbove

theorem AllDirectories.here (all : fs.AllDirectories l) : fs.entry? l = some .directory := all l List.prefix_rfl

theorem Grows.allDirectories (grows : Grows fs fs') (all : fs.AllDirectories l) : fs'.AllDirectories l :=
  fun above isAbove => grows.directory (all above isAbove)

theorem Grows.home (grows : Grows fs fs') (home : fs.AllDirectories fs.current) : fs'.AllDirectories fs'.current := by
  rw [grows.current]
  exact grows.allDirectories home

/-- A file or nothing is there, and steps that lead there do not end by going up. -/
def EndsAt (fs : FileSystem) (steps : List Text) (l : Location) : Prop :=
  (fs.FileAt l ∨ fs.entry? l = none) ∧ ∃ last, steps.getLast? = some last ∧ last ≠ ['.', '.']

theorem EndsAt.cons {step : Text} {rest : List Text} (ends : fs.EndsAt rest l) : fs.EndsAt (step :: rest) l := by
  obtain ⟨leaf, last, isLast, notUp⟩ := ends
  refine ⟨leaf, last, ?_, notUp⟩
  rw [List.getLast?_cons, isLast, Option.getD_some]

/-- Where a link leads does not end by going up either: its name is a step, or the steps after it end so. -/
theorem EndsAt.of_link {step : Text} {steps rest : List Text} (ends : fs.EndsAt (steps ++ rest) l)
    (notUp : step ≠ ['.', '.']) : fs.EndsAt (step :: rest) l := by
  obtain ⟨leaf, last, isLast, notUp'⟩ := ends
  refine ⟨leaf, ?_⟩
  cases rest with
  | nil => exact ⟨step, rfl, notUp⟩
  | cons next rest =>
    refine ⟨last, ?_, notUp'⟩
    rw [List.getLast?_append, List.getLast?_cons, Option.some_or] at isLast
    rw [List.getLast?_cons_cons, List.getLast?_cons, isLast]

theorem Leads.cases {mayMiss : Bool} {jump : Location → List Text → Except LookupError Location}
    (jumps : ∀ here steps, fs.AllDirectories here → jump here steps = .ok l → fs.AllDirectories l ∨ fs.EndsAt steps l)
    {here : Location} (all : fs.AllDirectories here) {steps : List Text} (leads : fs.Leads mayMiss jump l here steps) :
    fs.AllDirectories l ∨ fs.EndsAt steps l := by
  induction leads with
  | arrived => exact .inl all
  | idle _ _ ih => exact (ih all).imp_right EndsAt.cons
  | up _ ih => exact (ih all.dropLast).imp_right EndsAt.cons
  | down _ there _ ih => exact (ih (all.append there)).imp_right EndsAt.cons
  | file names _ there => exact .inr ⟨.inl there, _, rfl, names.notUp⟩
  | new names _ free _ => exact .inr ⟨.inr free, _, rfl, names.notUp⟩
  | @link here step rest target names there jumped =>
    have start : fs.AllDirectories (if target.isAbsolute then [] else here) := by
      split
      · exact .nil fs
      · exact all
    exact (jumps _ _ start jumped).imp_right fun ends => ends.of_link names.notUp

theorem followLinks_cases {mayMiss : Bool} {links : Nat} {here : Location} (all : fs.AllDirectories here)
    {steps : List Text} (found : fs.followLinks mayMiss links here steps = .ok l) :
    fs.AllDirectories l ∨ fs.EndsAt steps l := by
  induction links generalizing here steps with
  | zero =>
    rw [followLinks] at found
    exact (leads_of_follow found).cases (fun _ _ _ tooMany => by cases tooMany) all
  | succ links ih =>
    rw [followLinks] at found
    exact (leads_of_follow found).cases (fun _ _ all => ih all) all

/-- What a path leads to is a directory, or it is a file or free and the path does not end by going up. -/
theorem lookUp_cases (home : fs.AllDirectories fs.current) {mayMiss : Bool} {p : Path}
    (found : fs.lookUp mayMiss p = .ok l) : fs.AllDirectories l ∨ fs.EndsAt (stepsOf p) l := by
  refine followLinks_cases ?_ (lookUp_eq_ok.1 found).2.2
  rw [origin]
  split
  · exact .nil fs
  · exact home

/-! ## Paths in parts -/

section Parts

/-- Steps that lead nowhere else. -/
theorem follow_idle {mayMiss : Bool} {jump : Location → List Text → Except LookupError Location} (here : Location)
    {idle : List Text} (empty : ∀ z ∈ idle, z = []) : fs.follow mayMiss jump here idle = .ok here := by
  induction idle with
  | nil => rfl
  | cons z idle ih =>
    rw [follow, if_pos (.inl (empty z List.mem_cons_self))]
    exact ih fun y member => empty y (List.mem_cons_of_mem z member)

/-- The first steps lead to a place, and the others from there on. -/
def Parts (fs : FileSystem) (ns : List Text) (l : Location) (first : List Text → Except LookupError Location) : Prop :=
  ∃ m links, fs.followLinks false links m ns = .ok l ∧ ∀ idle, (∀ z ∈ idle, z = []) → first idle = .ok m

theorem follow_append {jump : Location → List Text → Except LookupError Location} {ns : List Text} (more : ns ≠ [])
    (jumps : ∀ here us, jump here (us ++ ns) = .ok l → fs.Parts ns l fun idle => jump here (us ++ idle))
    {links : Nat} (self : fs.followLinks false links = fs.follow false jump) {here : Location} {us : List Text}
    (found : fs.follow false jump here (us ++ ns) = .ok l) :
    fs.Parts ns l fun idle => fs.follow false jump here (us ++ idle) := by
  induction us generalizing here with
  | nil => exact ⟨here, links, by rw [self]; exact found, fun idle empty => follow_idle here empty⟩
  | cons step us ih =>
    rw [List.cons_append] at found
    simp only [List.cons_append]
    generalize steps : us ++ ns = rest at found
    cases leads_of_follow found with
    | idle stays leads =>
      subst steps
      simp only [follow, if_pos stays]
      exact ih leads.follow_eq
    | up leads =>
      subst steps
      exact ih leads.follow_eq
    | down names there leads =>
      subst steps
      simp only [follow_of_names names, there]
      exact ih leads.follow_eq
    | file => exact absurd steps (List.append_ne_nil_of_right_ne_nil us more)
    | new _ _ _ missing => cases missing
    | link names there jumped =>
      subst steps
      simp only [follow_of_names names, there]
      simp only [← List.append_assoc] at jumped ⊢
      exact jumps _ _ jumped

theorem followLinks_append {links : Nat} {here : Location} {us ns : List Text} (more : ns ≠ [])
    (found : fs.followLinks false links here (us ++ ns) = .ok l) :
    fs.Parts ns l fun idle => fs.followLinks false links here (us ++ idle) := by
  induction links generalizing here us with
  | zero =>
    have self : fs.followLinks false 0 = fs.follow false fun _ _ => .error .tooManyLinks := by rw [followLinks]
    rw [self] at found ⊢
    exact follow_append more (fun _ _ tooMany => by cases tooMany) self found
  | succ links ih =>
    have self : fs.followLinks false (links + 1) = fs.follow false (fs.followLinks false links) := by rw [followLinks]
    rw [self] at found ⊢
    exact follow_append more (fun _ _ => ih) self found

/-- Pieces lead straight down by their names where there are no links. -/
theorem follow_names {jump : Location → List Text → Except LookupError Location} {here : Location}
    (noLinks : ∀ below target, fs.entry? (here ++ below) ≠ some (.link target)) {ns names : List Text}
    (steps : ns.filterMap (Path.componentOf false) = Path.namesOf names)
    (found : fs.follow false jump here ns = .ok l) : l = here ++ names := by
  induction ns generalizing here names with
  | nil =>
    cases found
    rw [List.map_eq_nil_iff.1 steps.symm, List.append_nil]
  | cons n ns ih =>
    by_cases idle : n = [] ∨ n = ['.']
    · have nothing : Path.componentOf false n = none := by rcases idle with rfl | rfl <;> rfl
      rw [List.filterMap_cons_none nothing] at steps
      rw [follow, if_pos idle] at found
      exact ih noLinks steps found
    · obtain ⟨nonempty, notCurrent⟩ := not_or.1 idle
      by_cases up : n = ['.', '.']
      · have isParent : Path.componentOf false ['.', '.'] = some .parent := rfl
        rw [up, List.filterMap_cons_some isParent] at steps
        cases names <;> cases steps
      have isStep : Path.componentOf false n = some (.name n) := by
        rw [Path.componentOf, if_neg nonempty, if_neg notCurrent, if_neg up]
      rw [List.filterMap_cons_some isStep] at steps
      cases names with
      | nil => cases steps
      | cons m names =>
        obtain ⟨same, rest⟩ := List.cons.inj steps
        obtain rfl : n = m := Component.name.inj same
        have below : ∀ below target, fs.entry? (here ++ [n] ++ below) ≠ some (.link target) := fun below => by
          rw [List.append_assoc]
          exact noLinks ([n] ++ below)
        have nothingLeft : ns = [] → names = [] := fun last => by
          rw [last] at rest
          exact List.map_eq_nil_iff.1 rest.symm
        cases leads_of_follow found with
        | idle stays _ => exact absurd stays idle
        | up _ => exact absurd rfl up
        | down _ _ leads =>
          rw [ih below rest leads.follow_eq, List.append_assoc]
          rfl
        | file _ isLast _ => rw [isLast, nothingLeft rfl]
        | new _ isLast _ _ => rw [isLast, nothingLeft rfl]
        | link _ there _ => exact absurd there (noLinks [n] _)

theorem followLinks_names {links : Nat} {here : Location}
    (noLinks : ∀ below target, fs.entry? (here ++ below) ≠ some (.link target)) {ns names : List Text}
    (steps : ns.filterMap (Path.componentOf false) = Path.namesOf names)
    (found : fs.followLinks false links here ns = .ok l) : l = here ++ names := by
  cases links with
  | zero =>
    rw [followLinks] at found
    exact follow_names noLinks steps found
  | succ links =>
    rw [followLinks] at found
    exact follow_names noLinks steps found

end Parts

/-- The steps of a path below another: those of the upper path, empty ones at its end aside, and then the pieces. -/
theorem stepsOf_within (p : Path) : ∃ us idle, stepsOf p = us ++ idle ∧ (∀ z ∈ idle, z = []) ∧
    ∀ ns : List Text, ns ≠ [] → (∀ n ∈ ns, '/' ∉ n) → stepsOf ⟨p.within ++ Text.joinWith ['/'] ns⟩ = us ++ ns := by
  have split (ns : List Text) (more : ns ≠ []) (noSlash : ∀ n ∈ ns, '/' ∉ n) :
      Text.splitOn '/' (Text.joinWith ['/'] ns) = ns := Text.splitOn_joinWith more noSlash
  by_cases empty : p.text = []
  · refine ⟨[], [[]], by rw [stepsOf, empty]; rfl, by simp, fun ns more noSlash => ?_⟩
    rw [stepsOf, Path.within, if_pos (.inl empty), empty, List.nil_append, split ns more noSlash, List.nil_append]
  by_cases slash : p.text.getLast? = some '/'
  · obtain ⟨u, spelled⟩ := List.getLast?_eq_some_iff.1 slash
    refine ⟨Text.splitOn '/' u, [[]], ?_, by simp, fun ns more noSlash => ?_⟩
    · rw [stepsOf, spelled]
      exact Text.splitOn_append u []
    · rw [stepsOf, Path.within, if_pos (.inr slash), spelled, List.append_assoc, List.singleton_append,
        Text.splitOn_append, split ns more noSlash]
  · refine ⟨Text.splitOn '/' p.text, [], (List.append_nil _).symm, by simp, fun ns more noSlash => ?_⟩
    rw [stepsOf, Path.within, if_neg (not_or.2 ⟨empty, slash⟩), List.append_assoc, List.singleton_append,
      Text.splitOn_append, split ns more noSlash]

/-- Below where the path leads there are no links. -/
def NoLinksBelow (fs : FileSystem) (p : Path) : Prop :=
  ∀ d, fs.destination (fs.origin p) (stepsOf p) = .ok d → ∀ l target, fs.entry? (d ++ l) ≠ some (.link target)

/-- Without links, a file below a path is where its names lead from there. -/
theorem resolve_within (home : fs.AllDirectories fs.current) {p : Path} (noLinks : fs.NoLinksBelow p)
    {dir xs : List Text} {n : Text} (row : Path.IsRow xs)
    (directory : xs.filterMap (Path.componentOf false) = Path.namesOf dir) (isPiece : IsPiece n) (file : fs.FileAt l)
    (found : fs.resolve ⟨p.within ++ Text.joinWith ['/'] (xs ++ [n])⟩ = .ok l) :
    ∃ d, fs.destination (fs.origin p) (stepsOf p) = .ok d ∧ n ≠ ['.', '.'] ∧ l = d ++ (dir ++ [n]) := by
  have more : xs ++ [n] ≠ [] := by simp
  have whole := row.concat isPiece
  obtain ⟨us, idle, steps, empty, stepsBelow⟩ := stepsOf_within p
  have notParent : n ≠ ['.', '.'] := by
    rcases lookUp_cases home found with directories | ⟨-, last, isLast, notUp⟩
    · obtain ⟨_, _, _, there⟩ := file
      rw [directories.here] at there
      cases there
    · rw [stepsBelow _ more whole.noSlash, ← List.append_assoc, List.getLast?_concat] at isLast
      cases isLast
      exact notUp
  have origin : fs.origin ⟨p.within ++ Text.joinWith ['/'] (xs ++ [n])⟩ = fs.origin p := by
    rw [FileSystem.origin, FileSystem.origin, Path.isAbsolute_within more whole, Path.isAbsolute_start]
  have followed : fs.followLinks false 40 (fs.origin p) (us ++ (xs ++ [n])) = .ok l := by
    have followed := (lookUp_eq_ok.1 found).2.2
    rwa [origin, stepsBelow _ more whole.noSlash] at followed
  obtain ⟨d, links, below, first⟩ := followLinks_append more followed
  have leads : fs.destination (fs.origin p) (stepsOf p) = .ok d := by
    rw [destination, steps]
    exact first idle empty
  have names : (xs ++ [n]).filterMap (Path.componentOf false) = Path.namesOf (dir ++ [n]) := by
    rw [List.filterMap_append, directory, Path.namesOf_concat,
      List.filterMap_cons_some (Path.componentOf_of_isName ⟨isPiece, notParent⟩), List.filterMap_nil]
  exact ⟨d, leads, notParent, followLinks_names (noLinks d leads) names below⟩

end FileSystem

end CobolAtlas
