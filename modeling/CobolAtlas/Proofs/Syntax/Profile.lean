/-
# CobolAtlas.Proofs.Syntax.Profile -- profiles override field by field

A profile holds lists of kinds, and kinds with the name each stands for (`Profile.content`).  An object gives some of
its fields, each by one member, among members of other names (`Profile.Overrides`).  Each field is read by its own name
alone: a field that is given has the content that is written, and a field that is not given the standard one
(`kinds_of_overrides`, `pairs_of_overrides`).  So the profile of a file has each field from one of the two
(`load_overrides`).

What is written of kinds with names are the members of an object, of which the last of a name counts
(`lookup_putPairs`); two such contents are the same if they give each kind the same name.
-/
import CobolAtlas.Proofs.Program.Wire
import CobolAtlas.Repository.Settings

namespace CobolAtlas

set_option autoImplicit false

open Json

/-! ## Fields of an object -/

namespace Json

/-- The object of members whose names are texts. -/
def ofMembers (members : List (Text × Json)) : Json := .object (members.map fun m => (some m.1, m.2))

section

variable {members : List (Text × Json)}

theorem mapM_named (members : List (Text × Json)) :
    ((members.map fun m => (some m.1, m.2)).mapM fun m : Option Text × Json => m.1.map fun name => (name, m.2)) =
      some members := by
  refine mapM_map_eq_some ?_ members
  exact fun _ => rfl

theorem plain_ofMembers (plain : ∀ m ∈ members, Plain m.2) : Plain (ofMembers members) := by
  refine plain_object fun m member => ?_
  obtain ⟨m, among, rfl⟩ := List.mem_map.1 member
  exact ⟨Option.some_ne_none _, plain m among⟩

/-- Where no field occurs twice, each is looked up by its name. -/
theorem fields?_ofMembers {names : List Text} {required : Nat}
    (once : ∀ name ∈ names, members.countP (·.1 == name) ≤ 1) :
    fields? names required (ofMembers members) = some (names.map fun name => members.lookup name) := by
  have noneTwice : (names.any fun name => decide (1 < members.countP (·.1 == name))) = false := by
    rw [List.any_eq_false]
    intro name member
    simpa using once name member
  simp only [ofMembers, fields?, mapM_named, noneTwice, Option.bind_eq_bind, Option.bind_some, Bool.false_eq_true,
    if_false]

/-- The first member of a name is the first among those of the name. -/
theorem lookup_eq_head? (members : List (Text × Json)) (name : Text) :
    members.lookup name = (members.filter (·.1 == name)).head?.map (·.2) := by
  induction members with
  | nil => rfl
  | cons m members ih =>
    rw [List.lookup_cons, List.filter_cons, ih, BEq.comm]
    cases m.1 == name <;> rfl

end

end Json

namespace Profile

/-! ## Kinds with names -/

theorem lookup_cons_eq_ite (pair : Text × Text) (pairs : List (Text × Text)) (kind : Text) :
    (pair :: pairs).lookup kind = if kind = pair.1 then some pair.2 else pairs.lookup kind := by
  rw [List.lookup_cons]
  by_cases here : kind = pair.1
  · rw [if_pos here, beq_iff_eq.2 here]
  · rw [if_neg here, beq_eq_false_iff_ne.2 here]

theorem lookup_putPair (pair : Text × Text) (kept : List (Text × Text)) (kind : Text) :
    (putPair pair kept).lookup kind = if kind = pair.1 then some pair.2 else kept.lookup kind := by
  induction kept with
  | nil => exact lookup_cons_eq_ite pair [] kind
  | cons other kept ih =>
    rw [putPair]
    by_cases same : other.1 = pair.1
    · rw [if_pos same, lookup_cons_eq_ite, lookup_cons_eq_ite, same]
      split <;> rfl
    · rw [if_neg same, lookup_cons_eq_ite, lookup_cons_eq_ite, ih]
      by_cases here : kind = pair.1
      · rw [if_pos here, if_pos here, if_neg fun there => same (there.symm.trans here)]
      · rw [if_neg here, if_neg here]

/-- Of pairs that are put one after another, the last of a kind counts. -/
theorem lookup_putPairs (pairs kept : List (Text × Text)) (kind : Text) :
    (pairs.foldl (fun kept pair => putPair pair kept) kept).lookup kind =
      (pairs.reverse.lookup kind).or (kept.lookup kind) := by
  induction pairs generalizing kept with
  | nil => rfl
  | cons pair pairs ih =>
    rw [List.foldl_cons, ih, lookup_putPair, List.reverse_cons, List.lookup_append, Option.or_assoc,
      lookup_cons_eq_ite]
    congr 1
    split <;> rfl

theorem pairs?_ofMembers (pairs : List (Text × Text)) :
    ∃ kept, pairs? (ofMembers (pairs.map fun pair => (pair.1, ofText pair.2))) = some kept ∧
      ∀ kind, kept.lookup kind = pairs.reverse.lookup kind := by
  refine ⟨pairs.foldl (fun kept pair => putPair pair kept) [], ?_, fun kind => ?_⟩
  · rw [ofMembers, List.map_map, pairs?]
    have read : ((pairs.map ((fun m : Text × Json => (some m.1, m.2)) ∘ fun pair => (pair.1, ofText pair.2))).mapM
        fun m : Option Text × Json => do some ((← m.1), (← asText? m.2))) = some pairs := by
      refine mapM_map_eq_some ?_ pairs
      exact fun _ => rfl
    rw [read]
    rfl
  · rw [lookup_putPairs]
    exact Option.or_none

/-! ## Fields -/

/-- The fields of a profile. -/
inductive Field where
  | programName
  | divisions
  | dataSections
  | dataItem
  | levelNumber
  | dataName
  | picture
  | sectionHeader
  | paragraphHeader
  | call
  | perform
  | goTo
deriving DecidableEq

/-- The name of a field in JSON. -/
def Field.name : Field → Text
  | .programName => "program_name".toList
  | .divisions => "divisions".toList
  | .dataSections => "data_sections".toList
  | .dataItem => "data_item".toList
  | .levelNumber => "level_number".toList
  | .dataName => "data_name".toList
  | .picture => "picture".toList
  | .sectionHeader => "section_header".toList
  | .paragraphHeader => "paragraph_header".toList
  | .call => "call".toList
  | .perform => "perform".toList
  | .goTo => "goto".toList

/-- All fields, in the order of their names. -/
def Field.all : List Field :=
  [.programName, .divisions, .dataSections, .dataItem, .levelNumber, .dataName, .picture, .sectionHeader,
    .paragraphHeader, .call, .perform, .goTo]

/-- What a field holds: kinds, or kinds with the name each stands for. -/
inductive Content where
  | kinds (kinds : List Text)
  | pairs (pairs : List (Text × Text))

/-- What a profile holds in a field. -/
def content (p : Profile) : Field → Content
  | .programName => .kinds p.programName
  | .divisions => .pairs p.divisions
  | .dataSections => .pairs p.dataSections
  | .dataItem => .kinds p.dataItem
  | .levelNumber => .kinds p.levelNumber
  | .dataName => .kinds p.dataName
  | .picture => .kinds p.picture
  | .sectionHeader => .kinds p.sectionHeader
  | .paragraphHeader => .kinds p.paragraphHeader
  | .call => .kinds p.call
  | .perform => .kinds p.perform
  | .goTo => .kinds p.goTo

namespace Content

/-- The same kinds in the same order, or the same name for each kind. -/
def Same : Content → Content → Prop
  | .kinds ks, .kinds ks' => ks = ks'
  | .pairs ps, .pairs ps' => ∀ kind, ps.lookup kind = ps'.lookup kind
  | _, _ => False

/-- The value writes the content: an array of the kinds, or an object whose members give each kind its name, in any
order; of members of one name the last counts. -/
def IsWritten : Content → Json → Prop
  | .kinds ks, v => v = ofList ofText ks
  | .pairs ps, v => ∃ written : List (Text × Text), v = ofMembers (written.map fun pair => (pair.1, ofText pair.2)) ∧
      ∀ kind, written.reverse.lookup kind = ps.lookup kind

end Content

/-- The members give the fields of `given` with the content that they have in `k`, each once, and no other field; they
may stand in any order, and members of other names may be among them. -/
structure Overrides (k : Profile) (given : Field → Bool) (members : List (Text × Json)) : Prop where
  written : ∀ f, given f = true → ∃ v, members.filter (·.1 == f.name) = [(f.name, v)] ∧ (k.content f).IsWritten v
  absent : ∀ f, given f = false → members.filter (·.1 == f.name) = []

section

variable {k : Profile} {given : Field → Bool} {members : List (Text × Json)} (overrides : Overrides k given members)

include overrides

theorem Overrides.countP_le_one (f : Field) : members.countP (·.1 == f.name) ≤ 1 := by
  rw [List.countP_eq_length_filter]
  cases isGiven : given f with
  | true =>
    obtain ⟨v, once, -⟩ := overrides.written f isGiven
    rw [once]
    exact Nat.le_refl 1
  | false =>
    rw [overrides.absent f isGiven]
    exact Nat.zero_le 1

theorem Overrides.fields?_eq : fields? fieldNames 0 (ofMembers members) =
    some (Field.all.map fun f => members.lookup f.name) := by
  have names : fieldNames = Field.all.map Field.name := rfl
  rw [names, fields?_ofMembers, List.map_map]
  · rfl
  · intro name member
    obtain ⟨f, -, rfl⟩ := List.mem_map.1 member
    exact overrides.countP_le_one f

theorem Overrides.lookup_of_given {f : Field} (isGiven : given f = true) :
    ∃ v, members.lookup f.name = some v ∧ (k.content f).IsWritten v := by
  obtain ⟨v, once, isWritten⟩ := overrides.written f isGiven
  exact ⟨v, by rw [lookup_eq_head?, once]; rfl, isWritten⟩

theorem Overrides.lookup_of_absent {f : Field} (isAbsent : given f = false) : members.lookup f.name = none := by
  rw [lookup_eq_head?, overrides.absent f isAbsent]
  rfl

/-- A field of kinds holds those that are given, or else the standard ones. -/
theorem Overrides.kinds {f : Field} {own absent : List Text} (ofOwn : k.content f = .kinds own)
    (ofStandard : standard.content f = .kinds absent) :
    ∃ ks, orElse? absent (asList? asText?) (members.lookup f.name) = some ks ∧
      (Content.kinds ks).Same (if given f then k.content f else standard.content f) := by
  cases isGiven : given f with
  | true =>
    obtain ⟨v, found, isWritten⟩ := overrides.lookup_of_given isGiven
    rw [ofOwn] at isWritten
    obtain rfl := isWritten
    refine ⟨own, ?_, ?_⟩
    · rw [found]
      exact asList?_ofList asText?_ofText own
    · rw [if_pos rfl, ofOwn]
      rfl
  | false =>
    refine ⟨absent, ?_, ?_⟩
    · rw [overrides.lookup_of_absent isGiven]
      rfl
    · rw [if_neg Bool.false_ne_true, ofStandard]
      rfl

/-- A field of kinds with names holds those that are given, or else the standard ones. -/
theorem Overrides.pairs {f : Field} {own absent : List (Text × Text)} (ofOwn : k.content f = .pairs own)
    (ofStandard : standard.content f = .pairs absent) :
    ∃ ps, orElse? absent pairs? (members.lookup f.name) = some ps ∧
      (Content.pairs ps).Same (if given f then k.content f else standard.content f) := by
  cases isGiven : given f with
  | true =>
    obtain ⟨v, found, isWritten⟩ := overrides.lookup_of_given isGiven
    rw [ofOwn] at isWritten
    obtain ⟨written, rfl, names⟩ := isWritten
    obtain ⟨kept, read, last⟩ := pairs?_ofMembers written
    refine ⟨kept, ?_, ?_⟩
    · rw [found]
      exact read
    · rw [if_pos rfl, ofOwn]
      exact fun kind => (last kind).trans (names kind)
  | false =>
    refine ⟨absent, ?_, ?_⟩
    · rw [overrides.lookup_of_absent isGiven]
      rfl
    · rw [if_neg Bool.false_ne_true, ofStandard]
      exact fun kind => rfl

/-- Each field of the profile that is read is the one given, or else the standard one. -/
theorem Overrides.ofJson? : ∃ p, Profile.ofJson? (ofMembers members) = some p ∧
    ∀ f, (p.content f).Same (if given f then k.content f else standard.content f) := by
  obtain ⟨programName, programName_, ofProgramName⟩ := overrides.kinds (f := .programName) rfl rfl
  obtain ⟨divisions, divisions_, ofDivisions⟩ := overrides.pairs (f := .divisions) rfl rfl
  obtain ⟨dataSections, dataSections_, ofDataSections⟩ := overrides.pairs (f := .dataSections) rfl rfl
  obtain ⟨dataItem, dataItem_, ofDataItem⟩ := overrides.kinds (f := .dataItem) rfl rfl
  obtain ⟨levelNumber, levelNumber_, ofLevelNumber⟩ := overrides.kinds (f := .levelNumber) rfl rfl
  obtain ⟨dataName, dataName_, ofDataName⟩ := overrides.kinds (f := .dataName) rfl rfl
  obtain ⟨picture, picture_, ofPicture⟩ := overrides.kinds (f := .picture) rfl rfl
  obtain ⟨sectionHeader, sectionHeader_, ofSectionHeader⟩ := overrides.kinds (f := .sectionHeader) rfl rfl
  obtain ⟨paragraphHeader, paragraphHeader_, ofParagraphHeader⟩ := overrides.kinds (f := .paragraphHeader) rfl rfl
  obtain ⟨call, call_, ofCall⟩ := overrides.kinds (f := .call) rfl rfl
  obtain ⟨perform, perform_, ofPerform⟩ := overrides.kinds (f := .perform) rfl rfl
  obtain ⟨goTo, goTo_, ofGoTo⟩ := overrides.kinds (f := .goTo) rfl rfl
  refine ⟨⟨programName, divisions, dataSections, dataItem, levelNumber, dataName, picture, sectionHeader,
    paragraphHeader, call, perform, goTo⟩, ?_, ?_⟩
  · simp only [Profile.ofJson?, overrides.fields?_eq, Field.all, List.map_cons, List.map_nil, Option.bind_eq_bind,
      Option.bind_some, programName_, divisions_, dataSections_, dataItem_, levelNumber_, dataName_, picture_,
      sectionHeader_, paragraphHeader_, call_, perform_, goTo_]
  · intro f
    cases f with
    | programName => exact ofProgramName
    | divisions => exact ofDivisions
    | dataSections => exact ofDataSections
    | dataItem => exact ofDataItem
    | levelNumber => exact ofLevelNumber
    | dataName => exact ofDataName
    | picture => exact ofPicture
    | sectionHeader => exact ofSectionHeader
    | paragraphHeader => exact ofParagraphHeader
    | call => exact ofCall
    | perform => exact ofPerform
    | goTo => exact ofGoTo

end

/-- **Profiles override field by field.**  Where the text of a file is an object that gives some of the fields, with
the content that they have in `k` and in any order, among members of other names, the profile of the file has these
fields as `k` has them and all others as the standard profile. -/
theorem load_overrides {fs : FileSystem} {file : Path} {content : Bytes} {text : Text} {k : Profile}
    {given : Field → Bool} {members : List (Text × Json)} (read : fs.read? file = some content)
    (decoded : Utf8.decode? content = some text)
    (parsed : Json.parse? text = some (ofMembers members)) (overrides : Overrides k given members) :
    ∃ p, Profile.load fs file = .ok p ∧
      ∀ f, (p.content f).Same (if given f then k.content f else standard.content f) := by
  obtain ⟨p, ofJson, contents⟩ := overrides.ofJson?
  refine ⟨p, ?_, contents⟩
  simp only [load, read, decoded, parsed, Option.bind_some, ofJson]

/-- The profile of a grammar of another revision: other headers, no calls, and other kinds of transfers. -/
def revised : Profile :=
  { standard with
    divisions := [("h".toList, "IDENTIFICATION".toList), ("p".toList, "PROCEDURE".toList)]
    paragraphHeader := ["name".toList]
    call := []
    goTo := ["jump".toList] }

/-- The fields that are given: all that differ from the standard ones but the transfers. -/
def revisedFields : Field → Bool
  | .divisions | .paragraphHeader | .call => true
  | _ => false

/-- Members that give these fields in another order, with a member that is no field and a kind named twice. -/
def revisedMembers : List (Text × Json) :=
  [("rules".toList, .array [ofMembers [("x".toList, .bool true)]]),
    ("call".toList, ofList ofText []),
    ("divisions".toList, ofMembers ([("p".toList, "PROCEDURE".toList), ("h".toList, "ID".toList),
      ("h".toList, "IDENTIFICATION".toList)].map fun pair => (pair.1, ofText pair.2))),
    ("paragraph_header".toList, ofList ofText ["name".toList])]

theorem overrides_revised : Overrides revised revisedFields revisedMembers where
  written := by
    have last (a b x y z kind : Text) :
        ([(a, x), (b, y), (b, z)] : List (Text × Text)).reverse.lookup kind = [(b, z), (a, x)].lookup kind := by
      simp only [List.reverse_cons, List.reverse_nil, List.nil_append, List.cons_append, lookup_cons_eq_ite]
      by_cases here : kind = b
      · rw [if_pos here, if_pos here]
      · rw [if_neg here, if_neg here, if_neg here]
    intro f isGiven
    cases f with
    | divisions => exact ⟨_, rfl, _, rfl, last _ _ _ _ _⟩
    | paragraphHeader => exact ⟨_, rfl, rfl⟩
    | call => exact ⟨_, rfl, rfl⟩
    | _ => cases isGiven
  absent := by
    intro f isAbsent
    cases f with
    | divisions => cases isAbsent
    | paragraphHeader => cases isAbsent
    | call => cases isAbsent
    | _ => rfl

theorem plain_revised : Plain (ofMembers revisedMembers) := by
  refine plain_ofMembers ?_
  simp only [revisedMembers, List.forall_mem_cons]
  refine ⟨.array ?_, plain_ofList plain_ofText _, plain_ofMembers fun m member => ?_, plain_ofList plain_ofText _, nofun⟩
  · exact List.forall_mem_singleton.2 (plain_ofMembers (List.forall_mem_singleton.2 (plain_bool true)))
  · obtain ⟨pair, -, rfl⟩ := List.mem_map.1 member
    exact plain_ofText pair.2

/-- A file `/w/kinds.json`. -/
def revisedFiles (content : Bytes) : FileSystem :=
  ⟨[(["w".toList], .directory), (["w".toList, "kinds.json".toList], .file content 0 false)], [], 0⟩

/-- A file with these members is read: three fields are those of the revised grammar, whole, and the others are
standard. -/
theorem load_overrides_revised :
    let text := pretty (ofMembers revisedMembers)
    let fs := revisedFiles (Utf8.encode text)
    fs.read? ⟨"/w/kinds.json".toList⟩ = some (Utf8.encode text) ∧
      Utf8.decode? (Utf8.encode text) = some text ∧
      Json.parse? text = some (ofMembers revisedMembers) ∧
      Overrides revised revisedFields revisedMembers ∧
      ∃ p, Profile.load fs ⟨"/w/kinds.json".toList⟩ = .ok p ∧ p.call = [] ∧ p.goTo = standard.goTo ∧
        p.divisions.lookup "h".toList = some "IDENTIFICATION".toList ∧
        p.divisions.lookup "data_division".toList = none := by
  intro text fs
  have read (content : Bytes) : (revisedFiles content).read? ⟨"/w/kinds.json".toList⟩ = some content := rfl
  have decoded := Utf8.decode?_encode text
  have parsed : Json.parse? text = some (ofMembers revisedMembers) := parse?_pretty plain_revised
  obtain ⟨p, load, contents⟩ := load_overrides (read _) decoded parsed overrides_revised
  have divisions : ∀ kind, p.divisions.lookup kind = revised.divisions.lookup kind := contents .divisions
  refine ⟨read _, decoded, parsed, overrides_revised, p, load, contents .call, contents .goTo, ?_, ?_⟩
  · rw [divisions]
    decide
  · rw [divisions]
    decide

end Profile

end CobolAtlas
