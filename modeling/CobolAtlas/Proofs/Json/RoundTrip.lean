/-
# CobolAtlas.Proofs.Json.RoundTrip -- printed values are read again

A value that is printed over lines is read from the text as it was, `parse?_pretty`, if its numerals are those
of numbers and its strings are texts (`Plain`).  The reader goes through what is printed piece by piece:

* a line break and the blanks after it are skipped (`skipSpace_newLine`);
* a character comes back from its escape (`units?_escape`), and so does a string (`stringToken?_append`);
* a numeral ends where no character follows that could go on with it (`numeral?_ofNat`);
* a value takes no more steps than it has characters (`Plain.value?_prettyAt`).
-/
import CobolAtlas.Json.Printer
import CobolAtlas.Json.Reader
import CobolAtlas.Proofs.Text.Number

namespace CobolAtlas.Json

set_option autoImplicit false

/-! ## Values that can be read again -/

/-- Numerals are those of numbers, and strings are texts. -/
inductive Plain : Json → Prop where
  | null : Plain .null
  | bool (b : Bool) : Plain (.bool b)
  | number (n : Nat) : Plain (.number (Text.ofNat n))
  | string (t : Text) : Plain (.string (some t))
  | array {es : List Json} (elements : ∀ e ∈ es, Plain e) : Plain (.array es)
  | object {ms : List (Option Text × Json)} (names : ∀ m ∈ ms, m.1 ≠ none) (values : ∀ m ∈ ms, Plain m.2) :
      Plain (.object ms)

/-! ## Strings -/

theorem hexValue?_hexDigit {n : Nat} (digit : n < 16) : hexValue? (hexDigit n) = some n := by
  have all : ∀ n < 16, hexValue? (hexDigit n) = some n := by decide
  exact all n digit

/-- The unit of a control character. -/
theorem hexUnit?_hexDigit {n : Nat} (control : n < 32) :
    hexUnit? '0' '0' (hexDigit (n / 16)) (hexDigit (n % 16)) = some n := by
  have zero : hexValue? '0' = some 0 := by decide
  simp only [hexUnit?, zero, hexValue?_hexDigit (show n / 16 < 16 by omega),
    hexValue?_hexDigit (show n % 16 < 16 by omega), Option.bind_eq_bind, Option.bind_some, Option.some.injEq]
  omega

/-- The characters that are escaped by a letter or by themselves. -/
def shortEscapes : List Char := ['"', '\\', '\x08', '\x0c', '\n', '\r', '\t']

theorem units?_cons {c : Char} (unescaped : c ∉ shortEscapes) (notControl : 32 ≤ c.toNat) (rest : Text) :
    units? (c :: rest) = (units? rest).map fun (units, rest) => (c.toNat :: units, rest) := by
  simp only [shortEscapes, List.mem_cons, not_or] at unescaped
  rw [units?]
  · simp [unescaped.2.1, Nat.not_lt.2 notControl]
  · exact unescaped.1
  · intro _ _ _ _ _ backslash
    exact absurd backslash unescaped.2.1
  · intro _ _ backslash
    exact absurd backslash unescaped.2.1

/-- A character comes back from what is written for it. -/
theorem units?_escape (c : Char) (rest : Text) :
    units? (escape c ++ rest) = (units? rest).map fun (units, rest) => (c.toNat :: units, rest) := by
  by_cases short : c ∈ shortEscapes
  · have all : ∀ d ∈ shortEscapes, units? (escape d ++ rest) =
        (units? rest).map fun (units, rest) => (d.toNat :: units, rest) := by
      simp only [shortEscapes, List.forall_mem_cons]
      exact ⟨rfl, rfl, rfl, rfl, rfl, rfl, rfl, nofun⟩
    exact all c short
  · have others : escape c =
        if c.toNat < 32 then ['\\', 'u', '0', '0', hexDigit (c.toNat / 16), hexDigit (c.toNat % 16)] else [c] := by
      simp only [shortEscapes, List.mem_cons, not_or] at short
      simp only [escape, short, beq_iff_eq, if_false]
    rw [others]
    split
    · rename_i control
      simp only [List.cons_append, List.nil_append, units?, hexUnit?_hexDigit control, Option.bind_eq_bind,
        Option.bind_some]
    · rename_i notControl
      exact units?_cons short (Nat.le_of_not_lt notControl) rest

theorem units?_append (t rest : Text) :
    units? (t.flatMap escape ++ '"' :: rest) = some (t.map Char.toNat, rest) := by
  induction t with
  | nil => rfl
  | cons c t ih => rw [List.flatMap_cons, List.append_assoc, units?_escape, ih, Option.map_some, List.map_cons]

/-- Characters are no halves of surrogate pairs. -/
theorem toNat_notHalf (c : Char) : isHighHalf c.toNat = false ∧ isLowHalf c.toNat = false := by
  have valid : c.toNat < 0xD800 ∨ 0xDFFF < c.toNat ∧ c.toNat < 0x110000 := c.valid
  simp only [isHighHalf, isLowHalf, Bool.and_eq_false_iff, decide_eq_false_iff_not]
  omega

theorem textOfUnits_map (t : Text) : textOfUnits (t.map Char.toNat) = some t := by
  induction t with
  | nil => rfl
  | cons c t ih =>
    obtain ⟨notHigh, notLow⟩ := toNat_notHalf c
    cases t with
    | nil => simp [textOfUnits, notHigh, notLow]
    | cons d t =>
      rw [List.map_cons] at ih
      simp [textOfUnits, notHigh, notLow, ih]

/-- A string is read up to its closing quote. -/
theorem stringToken?_append (t rest : Text) :
    stringToken? (t.flatMap escape ++ '"' :: rest) = some (some t, rest) := by
  rw [stringToken?, units?_append, Option.map_some]
  simp only [textOfUnits_map]

/-! ## Numerals -/

/-- Can what follows not go on with a numeral? -/
def endsNumeral : Text → Bool
  | [] => true
  | c :: _ => !(c.isDigit || c == '.' || c == 'e' || c == 'E')

theorem digits?_append {digits rest : Text} (nonempty : digits ≠ []) (all : ∀ c ∈ digits, c.isDigit = true)
    (ends : endsNumeral rest = true) : digits? (digits ++ rest) = some (digits, rest) := by
  have stop : rest.takeWhile Char.isDigit = [] ∧ rest.dropWhile Char.isDigit = rest := by
    cases rest with
    | nil => exact ⟨rfl, rfl⟩
    | cons c rest =>
      have noDigit : c.isDigit = false := by simp_all [endsNumeral]
      simp [noDigit]
  have taken : (digits ++ rest).takeWhile Char.isDigit = digits := by
    rw [List.takeWhile_append_of_pos all, stop.1, List.append_nil]
  have left : (digits ++ rest).dropWhile Char.isDigit = rest := by
    rw [List.dropWhile_append_of_pos all, stop.2]
  rw [digits?, taken, left]
  cases digits with
  | nil => exact absurd rfl nonempty
  | cons c digits => rfl

theorem fraction?_eq_nil {rest : Text} (ends : endsNumeral rest = true) : fraction? rest = some ([], rest) := by
  unfold fraction?
  split
  · simp [endsNumeral] at ends
  · rfl

theorem exponent?_eq_nil {rest : Text} (ends : endsNumeral rest = true) : exponent? rest = some ([], rest) := by
  cases rest with
  | nil => rfl
  | cons c rest =>
    simp only [endsNumeral, Bool.not_eq_true', Bool.or_eq_false_iff] at ends
    simp [exponent?, ends.1.2, ends.2]

theorem wholePart?_ofNat (n : Nat) {rest : Text} (ends : endsNumeral rest = true) :
    wholePart? (Text.ofNat n ++ rest) = some (Text.ofNat n, rest) := by
  rcases Nat.eq_zero_or_pos n with rfl | positive
  · rfl
  · obtain ⟨d, ds, numeral⟩ := List.exists_cons_of_ne_nil (Text.ofNat_ne_nil n)
    have notZero : d ≠ '0' := by
      have first := Text.head?_ofNat positive
      rw [numeral] at first
      exact fun zero => first (congrArg some zero)
    have whole := digits?_append (Text.ofNat_ne_nil n) (fun c => Text.isDigit_of_mem_ofNat) ends
    rw [numeral, List.cons_append] at whole ⊢
    rw [wholePart?, whole]
    exact fun _ zero => notZero (List.cons.inj zero).1

/-- The numeral of a number is read whole. -/
theorem numeral?_ofNat (n : Nat) {rest : Text} (ends : endsNumeral rest = true) :
    numeral? (Text.ofNat n ++ rest) = some (Text.ofNat n, rest) := by
  have unsigned : ∀ t, Text.ofNat n ++ rest ≠ '-' :: t := by
    intro t same
    obtain ⟨d, ds, numeral⟩ := List.exists_cons_of_ne_nil (Text.ofNat_ne_nil n)
    have digit : d.isDigit = true := Text.isDigit_of_mem_ofNat (numeral ▸ List.mem_cons_self)
    rw [numeral] at same
    rw [(List.cons.inj same).1] at digit
    cases digit
  rw [numeral?]
  · simp [wholePart?_ofNat n ends, fraction?_eq_nil ends, exponent?_eq_nil ends]
  · exact unsigned

/-! ## Blanks between tokens -/

theorem skipSpace_cons {c : Char} (notSpace : isSpace c = false) (t : Text) : skipSpace (c :: t) = c :: t := by
  simp [skipSpace, notSpace]

/-- A line break and the blanks after it are skipped. -/
theorem skipSpace_newLine (depth : Nat) (t : Text) : skipSpace (newLine depth ++ t) = skipSpace t := by
  have blank : ∀ c ∈ newLine depth, isSpace c = true := by
    intro c member
    rcases List.mem_cons.1 member with rfl | member
    · rfl
    · rw [List.eq_of_mem_replicate member]
      rfl
  rw [skipSpace, List.dropWhile_append_of_pos blank, skipSpace]

theorem value?_newLine (steps depth : Nat) (t : Text) : value? steps (newLine depth ++ t) = value? steps t := by
  cases steps with
  | zero => rfl
  | succ steps => simp only [value?, skipSpace_newLine]

theorem value?_space (steps : Nat) (t : Text) : value? steps (' ' :: t) = value? steps t := by
  cases steps with
  | zero => rfl
  | succ steps =>
    have skipped : skipSpace (' ' :: t) = skipSpace t := rfl
    simp only [value?, skipped]

theorem elements?_newLine (steps depth : Nat) (t : Text) :
    elements? steps (newLine depth ++ t) = elements? steps t := by
  cases steps with
  | zero => rfl
  | succ steps => simp only [elements?, value?_newLine]

theorem members?_newLine (steps depth : Nat) (t : Text) :
    members? steps (newLine depth ++ t) = members? steps t := by
  cases steps with
  | zero => rfl
  | succ steps => simp only [members?, skipSpace_newLine]

/-! ## Values -/

theorem isSpace_of_isDigit {c : Char} (digit : c.isDigit = true) : isSpace c = false := by
  cases space : isSpace c with
  | false => rfl
  | true =>
    simp only [isSpace, Bool.or_eq_true, beq_iff_eq] at space
    obtain ((rfl | rfl) | rfl) | rfl := space <;> cases digit

/-- What is printed of a value starts with a character that is no blank and closes nothing. -/
theorem Plain.exists_cons {v : Json} (plain : Plain v) (depth : Nat) :
    ∃ c t, prettyAt depth v = c :: t ∧ isSpace c = false ∧ c ≠ ']' := by
  cases plain with
  | null => exact ⟨_, _, rfl, rfl, by decide⟩
  | bool b => cases b <;> exact ⟨_, _, rfl, rfl, by decide⟩
  | number n =>
    obtain ⟨d, ds, numeral⟩ := List.exists_cons_of_ne_nil (Text.ofNat_ne_nil n)
    have digit : d.isDigit = true := Text.isDigit_of_mem_ofNat (numeral ▸ List.mem_cons_self)
    refine ⟨d, ds, by rw [prettyAt, numeral], isSpace_of_isDigit digit, ?_⟩
    rintro rfl
    cases digit
  | string t => exact ⟨_, _, rfl, rfl, by decide⟩
  | @array es _ =>
    cases es with
    | nil => exact ⟨'[', [']'], by rw [prettyAt], rfl, by decide⟩
    | cons e es =>
      exact ⟨'[', newLine (depth + 1) ++ prettyAt (depth + 1) e ++ prettyElements depth es ++ newLine depth ++ [']'],
        by rw [prettyAt]; simp only [List.cons_append], rfl, by decide⟩
  | @object ms _ _ =>
    cases ms with
    | nil => exact ⟨'\x7b', ['\x7d'], by rw [prettyAt], rfl, by decide⟩
    | cons m ms =>
      exact ⟨'\x7b', newLine (depth + 1) ++ quoted m.1 ++ [':', ' '] ++ prettyAt (depth + 1) m.2 ++
        prettyMembers depth ms ++ newLine depth ++ ['\x7d'],
        by rw [prettyAt]; simp only [List.cons_append], rfl, by decide⟩

/-- The text of a value is read as the value, wherever no numeral goes on after it. -/
def ReadsBack (v : Json) : Prop :=
  ∀ depth steps rest, endsNumeral rest = true → (prettyAt depth v).length ≤ steps →
    value? steps (prettyAt depth v ++ rest) = some (v, rest)

/-- What is printed after an element or a member ends a numeral. -/
theorem endsNumeral_elements (depth : Nat) (es : List Json) (rest : Text) :
    endsNumeral (prettyElements depth es ++ (newLine depth ++ rest)) = true := by
  cases es with
  | nil => rfl
  | cons e es => rw [prettyElements]; rfl

theorem endsNumeral_members (depth : Nat) (ms : List (Option Text × Json)) (rest : Text) :
    endsNumeral (prettyMembers depth ms ++ (newLine depth ++ rest)) = true := by
  rcases ms with _ | ⟨⟨name, value⟩, ms⟩
  · rfl
  · rw [prettyMembers]; rfl

/-- The elements of an array, and its closing bracket. -/
theorem elements?_pretty {depth steps : Nat} {e : Json} {es : List Json} (reads : ∀ v ∈ e :: es, ReadsBack v)
    (enough : (prettyAt (depth + 1) e ++ prettyElements depth es).length < steps) (rest : Text) :
    elements? steps (prettyAt (depth + 1) e ++ (prettyElements depth es ++ (newLine depth ++ ']' :: rest))) =
      some (e :: es, rest) := by
  induction es generalizing e steps with
  | nil =>
    obtain ⟨steps, rfl⟩ : ∃ n, steps = n + 1 := ⟨steps - 1, by omega⟩
    have first := reads e List.mem_cons_self (depth + 1) steps _ (endsNumeral_elements depth [] (']' :: rest))
      (by simp [prettyElements] at enough; omega)
    simp only [elements?, first, Option.bind_eq_bind, Option.bind_some]
    rw [prettyElements, List.nil_append, skipSpace_newLine]
    rfl
  | cons f es ih =>
    obtain ⟨steps, rfl⟩ : ∃ n, steps = n + 1 := ⟨steps - 1, by omega⟩
    simp only [List.length_append] at enough
    have first := reads e List.mem_cons_self (depth + 1) steps _ (endsNumeral_elements depth (f :: es) (']' :: rest))
      (by omega)
    have fewer : (prettyAt (depth + 1) f ++ prettyElements depth es).length < steps := by
      simp only [prettyElements, List.length_cons, List.length_append] at enough ⊢
      omega
    have others := ih (fun v member => reads v (List.mem_cons_of_mem e member)) fewer
    simp only [elements?, first, Option.bind_eq_bind, Option.bind_some]
    simp only [prettyElements, List.cons_append, List.append_assoc]
    rw [skipSpace_cons rfl]
    simp only [elements?_newLine, others, Option.map_some]

/-- What is printed of a member, its name aside. -/
theorem quoted_append (name rest : Text) :
    quoted (some name) ++ rest = '"' :: (name.flatMap escape ++ '"' :: rest) := by
  show '"' :: name.flatMap escape ++ ['"'] ++ rest = _
  simp only [List.cons_append, List.append_assoc, List.nil_append]

/-- A member is read, and what follows it is looked at. -/
theorem members?_member {depth steps : Nat} {name : Text} {v : Json} (reads : ReadsBack v) {rest : Text}
    (ends : endsNumeral rest = true) (enough : (prettyAt depth v).length ≤ steps) :
    members? (steps + 1) (quoted (some name) ++ ':' :: ' ' :: (prettyAt depth v ++ rest)) =
      match skipSpace rest with
      | '\x7d' :: rest => some ([(some name, v)], rest)
      | ',' :: rest => (members? steps rest).map fun (ms, rest) => ((some name, v) :: ms, rest)
      | _ => none := by
  have value : value? steps (' ' :: (prettyAt depth v ++ rest)) = some (v, rest) := by
    rw [value?_space, reads depth steps rest ends enough]
  rw [quoted_append]
  simp only [members?]
  rw [skipSpace_cons rfl]
  simp only [stringToken?_append, Option.bind_eq_bind, Option.bind_some]
  rw [skipSpace_cons rfl]
  show (value? steps (' ' :: (prettyAt depth v ++ rest))).bind _ = _
  rw [value]
  rfl

/-- The members of an object, and its closing brace. -/
theorem members?_pretty {depth steps : Nat} {name : Text} {v : Json} {ms : List (Option Text × Json)}
    (named : ∀ m ∈ ms, m.1 ≠ none) (reads : ∀ m ∈ (some name, v) :: ms, ReadsBack m.2)
    (enough : (prettyAt (depth + 1) v ++ prettyMembers depth ms).length < steps) (rest : Text) :
    members? steps (quoted (some name) ++ ':' :: ' ' :: (prettyAt (depth + 1) v ++
        (prettyMembers depth ms ++ (newLine depth ++ '\x7d' :: rest)))) =
      some ((some name, v) :: ms, rest) := by
  have first : ReadsBack v := reads (some name, v) List.mem_cons_self
  induction ms generalizing name v steps with
  | nil =>
    obtain ⟨steps, rfl⟩ : ∃ n, steps = n + 1 := ⟨steps - 1, by omega⟩
    rw [List.length_append] at enough
    rw [members?_member first (endsNumeral_members depth [] _) (by omega), prettyMembers,
      List.nil_append, skipSpace_newLine]
    rfl
  | cons m ms ih =>
    obtain ⟨steps, rfl⟩ : ∃ n, steps = n + 1 := ⟨steps - 1, by omega⟩
    obtain ⟨_ | name', v'⟩ := m
    · exact absurd rfl (named (none, v') List.mem_cons_self)
    rw [List.length_append] at enough
    rw [members?_member first (endsNumeral_members depth _ _) (by omega)]
    have fewer : (prettyAt (depth + 1) v' ++ prettyMembers depth ms).length < steps := by
      simp only [prettyMembers, List.length_cons, List.length_append] at enough ⊢
      omega
    have others := ih (fun m member => named m (List.mem_cons_of_mem _ member))
      (fun m member => reads m (List.mem_cons_of_mem _ member)) fewer
      (reads (some name', v') (List.mem_cons_of_mem _ List.mem_cons_self))
    simp only [prettyMembers, List.cons_append, List.append_assoc]
    rw [skipSpace_cons rfl]
    simp only [members?_newLine, List.nil_append, others, Option.map_some]

theorem value?_number (steps n : Nat) {rest : Text} (ends : endsNumeral rest = true) :
    value? (steps + 1) (Text.ofNat n ++ rest) = some (.number (Text.ofNat n), rest) := by
  have whole := numeral?_ofNat n ends
  obtain ⟨d, ds, numeral⟩ := List.exists_cons_of_ne_nil (Text.ofNat_ne_nil n)
  have digit : d.isDigit = true := Text.isDigit_of_mem_ofNat (numeral ▸ List.mem_cons_self)
  rw [numeral, List.cons_append] at whole ⊢
  rw [value?, skipSpace_cons (isSpace_of_isDigit digit)]
  -- no other kind of value starts with a digit
  split <;> rename_i same
  all_goals first
    | (rw [whole]; rfl)
    | (rw [(List.cons.inj same).1] at digit; cases digit)

theorem value?_string (steps : Nat) (t rest : Text) :
    value? (steps + 1) (quoted (some t) ++ rest) = some (.string (some t), rest) := by
  rw [quoted_append, value?, skipSpace_cons rfl]
  simp only [stringToken?_append, Option.map_some]

/-- An array that is not empty is its elements in brackets. -/
theorem value?_array {steps depth : Nat} {e : Json} (plain : Plain e) (t : Text) :
    value? (steps + 1) ('[' :: (newLine (depth + 1) ++ (prettyAt (depth + 1) e ++ t))) =
      (elements? steps (prettyAt (depth + 1) e ++ t)).map fun (es, rest) => (.array es, rest) := by
  obtain ⟨c, u, printed, notSpace, notClosing⟩ := plain.exists_cons (depth + 1)
  rw [printed, List.cons_append, value?, skipSpace_cons rfl]
  simp only
  rw [skipSpace_newLine, skipSpace_cons notSpace]
  split
  · rename_i same
    exact absurd (List.cons.inj same).1 notClosing
  · rfl

theorem value?_object (steps depth : Nat) (name t : Text) :
    value? (steps + 1) ('\x7b' :: (newLine (depth + 1) ++ (quoted (some name) ++ t))) =
      (members? steps (quoted (some name) ++ t)).map fun (ms, rest) => (.object ms, rest) := by
  rw [quoted_append, value?, skipSpace_cons rfl]
  simp only
  rw [skipSpace_newLine, skipSpace_cons rfl]
  rfl

/-- A printed value is not empty, so there is a step to take. -/
theorem Plain.exists_step {v : Json} (plain : Plain v) {depth steps : Nat}
    (enough : (prettyAt depth v).length ≤ steps) : ∃ n, steps = n + 1 := by
  obtain ⟨c, t, printed, -⟩ := plain.exists_cons depth
  rw [printed, List.length_cons] at enough
  exact ⟨steps - 1, by omega⟩

theorem readsBack_array {es : List Json} (plain : ∀ e ∈ es, Plain e) (reads : ∀ e ∈ es, ReadsBack e) :
    ReadsBack (.array es) := by
  intro depth steps rest ends enough
  obtain ⟨steps, rfl⟩ := (Plain.array plain).exists_step enough
  cases es with
  | nil => rfl
  | cons e es =>
    have fewer : (prettyAt (depth + 1) e ++ prettyElements depth es).length < steps := by
      simp only [prettyAt, List.length_cons, List.length_append] at enough ⊢
      omega
    have body := elements?_pretty reads fewer rest
    have printed : prettyAt depth (.array (e :: es)) ++ rest =
        '[' :: (newLine (depth + 1) ++ (prettyAt (depth + 1) e ++
          (prettyElements depth es ++ (newLine depth ++ ']' :: rest)))) := by
      simp only [prettyAt, List.cons_append, List.append_assoc, List.nil_append]
    rw [printed, value?_array (plain e List.mem_cons_self), body, Option.map_some]

theorem readsBack_object {ms : List (Option Text × Json)} (names : ∀ m ∈ ms, m.1 ≠ none)
    (plain : ∀ m ∈ ms, Plain m.2) (reads : ∀ m ∈ ms, ReadsBack m.2) : ReadsBack (.object ms) := by
  intro depth steps rest ends enough
  obtain ⟨steps, rfl⟩ := (Plain.object names plain).exists_step enough
  rcases ms with _ | ⟨⟨_ | name, v⟩, ms⟩
  · rfl
  · exact absurd rfl (names (none, v) List.mem_cons_self)
  · have fewer : (prettyAt (depth + 1) v ++ prettyMembers depth ms).length < steps := by
      simp only [prettyAt, List.length_cons, List.length_append] at enough ⊢
      omega
    have body := members?_pretty (fun m member => names m (List.mem_cons_of_mem _ member)) reads fewer rest
    have printed : prettyAt depth (.object ((some name, v) :: ms)) ++ rest =
        '\x7b' :: (newLine (depth + 1) ++ (quoted (some name) ++ ':' :: ' ' :: (prettyAt (depth + 1) v ++
          (prettyMembers depth ms ++ (newLine depth ++ '\x7d' :: rest))))) := by
      simp only [prettyAt, List.cons_append, List.append_assoc, List.nil_append]
    rw [printed, value?_object, body, Option.map_some]

/-- What is printed of a plain value is read as the value. -/
theorem Plain.readsBack {v : Json} (plain : Plain v) : ReadsBack v := by
  induction plain with
  | null =>
    intro depth steps rest ends enough
    obtain ⟨steps, rfl⟩ := Plain.null.exists_step enough
    rfl
  | bool b =>
    intro depth steps rest ends enough
    obtain ⟨steps, rfl⟩ := (Plain.bool b).exists_step enough
    cases b <;> rfl
  | number n =>
    intro depth steps rest ends enough
    obtain ⟨steps, rfl⟩ := (Plain.number n).exists_step enough
    exact value?_number steps n ends
  | string t =>
    intro depth steps rest ends enough
    obtain ⟨steps, rfl⟩ := (Plain.string t).exists_step enough
    exact value?_string steps t rest
  | array elements ih => exact readsBack_array elements ih
  | object names values ih => exact readsBack_object names values ih

/-- **A printed value is read as it was.** -/
theorem parse?_pretty {v : Json} (plain : Plain v) : parse? (pretty v) = some v := by
  have read : value? ((pretty v).length + 1) (pretty v ++ []) = some (v, []) :=
    plain.readsBack 0 ((pretty v).length + 1) [] rfl (Nat.le_succ _)
  rw [List.append_nil] at read
  rw [parse?, read]
  rfl

end CobolAtlas.Json
