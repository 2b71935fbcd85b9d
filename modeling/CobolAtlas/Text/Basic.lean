/-
# CobolAtlas.Text.Basic -- texts as lists of characters, measured in bytes

Every name, line and path of this library is a `Text`.  Columns of a source line are counted in the
bytes of its UTF-8 form, so a text has a byte length and can be cut at a byte, which succeeds only
between two characters (`splitAtByte?`).  `splitAtByte?_append` says that a cut at the length of a
first part finds that part again; `append_of_splitAtByte?` that a cut loses nothing.
-/

namespace CobolAtlas

set_option autoImplicit false

/-- A text is the list of its characters. -/
abbrev Text := List Char

namespace Text

/-! ## Classes of characters -/

/-- Does the code point of `c` lie in one of the inclusive ranges? -/
def inRanges (ranges : List (Nat × Nat)) (c : Char) : Bool :=
  ranges.any fun r => r.1 ≤ c.toNat && c.toNat ≤ r.2

/-! ## Bytes -/

/-- Length of the UTF-8 form. -/
def byteLength : Text → Nat
  | [] => 0
  | c :: t => c.utf8Size + byteLength t

/-- Cut after `n` bytes; `none` when that is inside a character or past the end. -/
def splitAtByte? : Nat → Text → Option (Text × Text)
  | 0, t => some ([], t)
  | _ + 1, [] => none
  | n + 1, c :: t =>
      if c.utf8Size ≤ n + 1 then
        (splitAtByte? (n + 1 - c.utf8Size) t).map fun parts => (c :: parts.1, parts.2)
      else none

/-- The characters in the bytes from `start` on, `length` bytes long; empty when an end of the range is
inside a character or past the end. -/
def byteSlice (start length : Nat) (t : Text) : Text :=
  match splitAtByte? start t with
  | none => []
  | some (_, rest) => match splitAtByte? length rest with
    | none => []
    | some (slice, _) => slice

@[simp] theorem byteLength_nil : byteLength [] = 0 := rfl

@[simp] theorem byteLength_cons (c : Char) (t : Text) :
    byteLength (c :: t) = c.utf8Size + byteLength t := rfl

@[simp] theorem byteLength_append (a b : Text) : byteLength (a ++ b) = byteLength a + byteLength b := by
  induction a with
  | nil => simp
  | cons c a ih => simp [ih, Nat.add_assoc]

theorem splitAtByte?_zero (t : Text) : splitAtByte? 0 t = some ([], t) := by
  cases t <;> rfl

/-- A cut at the length of a first part finds that part. -/
theorem splitAtByte?_append (a b : Text) : splitAtByte? (byteLength a) (a ++ b) = some (a, b) := by
  induction a with
  | nil => simp [splitAtByte?_zero]
  | cons c a ih =>
    have positive := c.utf8Size_pos
    obtain ⟨n, hn⟩ : ∃ n, byteLength (c :: a) = n + 1 := ⟨byteLength (c :: a) - 1, by simp; omega⟩
    have enough : c.utf8Size ≤ n + 1 := by simp at hn; omega
    have rest : n + 1 - c.utf8Size = byteLength a := by simp at hn; omega
    rw [hn, List.cons_append, splitAtByte?]
    simp [enough, rest, ih]

/-- A cut loses nothing and its first part has the length asked for. -/
theorem append_of_splitAtByte? {n : Nat} {t a b : Text} (h : splitAtByte? n t = some (a, b)) :
    t = a ++ b ∧ byteLength a = n := by
  induction t generalizing n a b with
  | nil =>
    cases n with
    | zero => simp [splitAtByte?] at h; simp [h]
    | succ n => simp [splitAtByte?] at h
  | cons c t ih =>
    cases n with
    | zero => simp [splitAtByte?] at h; simp [h]
    | succ n =>
      rw [splitAtByte?] at h
      split at h
      · rename_i enough
        obtain ⟨⟨a', b'⟩, inner, parts⟩ := Option.map_eq_some_iff.1 h
        obtain ⟨rfl, length⟩ := ih inner
        simp only [Prod.mk.injEq] at parts
        obtain ⟨rfl, rfl⟩ := parts
        simp only [List.cons_append, byteLength_cons, true_and]
        omega
      · simp at h

/-! ## Cutting and splitting -/

/-- The text without its longest end whose characters all satisfy `p`. -/
def dropEndWhile (p : Char → Bool) (t : Text) : Text := (t.reverse.dropWhile p).reverse

/-- The text without the characters at its two ends that satisfy `p`. -/
def dropBothWhile (p : Char → Bool) (t : Text) : Text := dropEndWhile p (t.dropWhile p)

/-- The pieces between the characters equal to `separator`; one piece more than there are separators. -/
def splitOn (separator : Char) : Text → List Text
  | [] => [[]]
  | c :: t =>
      if c == separator then [] :: splitOn separator t
      else match splitOn separator t with
        | [] => [[c]]
        | piece :: pieces => (c :: piece) :: pieces

/-- The pieces in a row with `separator` between them. -/
def joinWith (separator : Text) : List Text → Text
  | [] => []
  | [piece] => piece
  | piece :: pieces => piece ++ separator ++ joinWith separator pieces

/-- Without one `'\r'` at the end. -/
def dropCarriageReturn (t : Text) : Text :=
  if t.getLast? = some '\r' then t.dropLast else t

/-- The lines of a text.  A line feed, or a carriage return and a line feed, ends a line; the text after
the last line feed is a line unless it is empty. -/
def lines (t : Text) : List Text :=
  let pieces := splitOn '\n' t
  pieces.dropLast.map dropCarriageReturn ++
    match pieces.getLast? with
    | some (c :: rest) => [c :: rest]
    | _ => []

/-- Is the character present? -/
def has (c : Char) (t : Text) : Bool := t.contains c

/-- The text after a leading `start`. -/
def after? : Text → Text → Option Text
  | [], t => some t
  | _ :: _, [] => none
  | s :: start, c :: t => if s == c then after? start t else none

/-- The decimal numeral of a number. -/
def ofNat (n : Nat) : Text := Nat.toDigits 10 n

end Text

end CobolAtlas
