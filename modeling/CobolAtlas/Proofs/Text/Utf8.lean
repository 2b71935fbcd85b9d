/-
# CobolAtlas.Proofs.Text.Utf8 -- what is encoded is decoded again

The UTF-8 form of a character is one byte, or a first byte and one to three bytes that follow.  The decoder
passes each of them: a first byte leaves a partial character with its high bits (`start_two` and its
siblings), a byte that follows adds six bits (`decodeFrom_next`), the last one completes the character
(`decodeFrom_last`).  The range that the decoder asks of the byte after the first excludes longer forms of
smaller characters and halves of surrogate pairs, and no character has one of these.  So a text comes back
from its bytes: `decode?_encode`.

A byte of ASCII is a character of its own, for the decoder takes none into another character (`decodeLossy_append`),
and makes none of other bytes: what a partial character can be completed to lies beyond ASCII (`Partial.IsScalar`,
`mem_of_mem_decodeLossy`).

Since the decoder does not look ahead, where the bytes of a text go on from those of another the text does
(`append_of_encode_eq`), and texts with the same first bytes have the same characters as far as these end there
(`append_of_take_encode_eq`).
-/
import CobolAtlas.Text.Utf8
import Mathlib.Algebra.Group.Nat.Defs

namespace CobolAtlas.Utf8

set_option autoImplicit false

/-! ## One byte -/

theorem toNat_byte {n : Nat} (small : n < 256) : (UInt8.ofNat n).toNat = n := UInt8.toNat_ofNat_of_lt' small

theorem byte_lt_iff {n : Nat} (small : n < 256) (b : UInt8) : UInt8.ofNat n < b ↔ n < b.toNat := by
  rw [UInt8.lt_iff_toNat_lt, toNat_byte small]

theorem byte_beq {n : Nat} (small : n < 256) (b : UInt8) : (UInt8.ofNat n == b) = (n == b.toNat) := by
  rw [Bool.eq_iff_iff, beq_iff_eq, beq_iff_eq, ← UInt8.toNat_inj, toNat_byte small]

/-- A byte below 128 is a character. -/
theorem start_one {n : Nat} (small : n < 128) : start (UInt8.ofNat n) = .whole (Char.ofNat n) := by
  have byte : n < 256 := by omega
  simp only [start, byte_lt_iff byte, toNat_byte byte, UInt8.reduceToNat, small, if_true]

section First

variable {n : Nat}

/-- The first byte of two. -/
theorem start_two (low : 2 ≤ n) (high : n < 32) : start (UInt8.ofNat (n + 192)) = .first ⟨1, n, 0x80, 0xBF⟩ := by
  have byte : n + 192 < 256 := by omega
  simp only [start, byte_lt_iff byte, toNat_byte byte, UInt8.reduceToNat]
  rw [if_neg (by omega), if_neg (by omega), if_pos (by omega), Nat.add_sub_cancel]

/-- The first byte of three. -/
theorem start_three (high : n < 16) :
    start (UInt8.ofNat (n + 224)) =
      .first ⟨2, n, if n = 0 then 0xA0 else 0x80, if n = 13 then 0x9F else 0xBF⟩ := by
  have byte : n + 224 < 256 := by omega
  simp only [start, byte_lt_iff byte, byte_beq byte, toNat_byte byte, UInt8.reduceToNat, beq_iff_eq]
  rw [if_neg (by omega), if_neg (by omega), if_neg (by omega), if_pos (by omega), Nat.add_sub_cancel]
  congr 3 <;> simp

/-- The first byte of four. -/
theorem start_four (high : n < 5) :
    start (UInt8.ofNat (n + 240)) =
      .first ⟨3, n, if n = 0 then 0x90 else 0x80, if n = 4 then 0x8F else 0xBF⟩ := by
  have byte : n + 240 < 256 := by omega
  simp only [start, byte_lt_iff byte, byte_beq byte, toNat_byte byte, UInt8.reduceToNat, beq_iff_eq]
  rw [if_neg (by omega), if_neg (by omega), if_neg (by omega), if_neg (by omega), if_pos (by omega), Nat.add_sub_cancel]
  congr 3 <;> simp

end First

section Following

variable {value n : Nat} {low high : UInt8} {bytes : Bytes}

/-- The last byte of a character. -/
theorem decodeFrom_last (above : low.toNat ≤ n + 128) (below : n + 128 ≤ high.toNat) :
    decodeFrom (some ⟨1, value, low, high⟩) (UInt8.ofNat (n + 128) :: bytes) =
      some (Char.ofNat (value * 64 + n)) :: decodeFrom none bytes := by
  have byte : n + 128 < 256 := Nat.lt_of_le_of_lt below high.toNat_lt
  have within : low ≤ UInt8.ofNat (n + 128) ∧ UInt8.ofNat (n + 128) ≤ high := by
    rw [UInt8.le_iff_toNat_le, UInt8.le_iff_toNat_le, toNat_byte byte]
    exact ⟨above, below⟩
  simp only [decodeFrom, within, and_self, if_true, toNat_byte byte, Nat.add_sub_cancel]

/-- A byte between the first and the last. -/
theorem decodeFrom_next (toCome : Nat) (above : low.toNat ≤ n + 128) (below : n + 128 ≤ high.toNat) :
    decodeFrom (some ⟨toCome + 2, value, low, high⟩) (UInt8.ofNat (n + 128) :: bytes) =
      decodeFrom (some ⟨toCome + 1, value * 64 + n, 0x80, 0xBF⟩) bytes := by
  have byte : n + 128 < 256 := Nat.lt_of_le_of_lt below high.toNat_lt
  have within : low ≤ UInt8.ofNat (n + 128) ∧ UInt8.ofNat (n + 128) ≤ high := by
    rw [UInt8.le_iff_toNat_le, UInt8.le_iff_toNat_le, toNat_byte byte]
    exact ⟨above, below⟩
  have more : toCome + 2 ≠ 1 := by omega
  simp only [decodeFrom, within, and_self, if_true, toNat_byte byte, Nat.add_sub_cancel, if_neg more]
  rfl

end Following

/-! ## Characters -/

theorem decodeFrom_whole {b : UInt8} {c : Char} (whole : start b = .whole c) (bytes : Bytes) :
    decodeFrom none (b :: bytes) = some c :: decodeFrom none bytes := by
  simp only [decodeFrom, whole, List.nil_append]

theorem decodeFrom_first {b : UInt8} {p : Partial} (first : start b = .first p) (bytes : Bytes) :
    decodeFrom none (b :: bytes) = decodeFrom (some p) bytes := by
  simp only [decodeFrom, first, List.nil_append]

/-- The bytes of a character are decoded to it. -/
theorem decodeFrom_utf8EncodeChar (c : Char) (bytes : Bytes) :
    decodeFrom none (String.utf8EncodeChar c ++ bytes) = some c :: decodeFrom none bytes := by
  have valid : c.val.toNat < 0xD800 ∨ 0xDFFF < c.val.toNat ∧ c.val.toNat < 0x110000 := c.valid
  have restored : ∀ v, v = c.val.toNat → some (Char.ofNat v) = some c := by
    rintro v rfl
    rw [show Char.ofNat c.val.toNat = c from Char.ofNat_toNat c]
  simp only [String.utf8EncodeChar]
  generalize c.val.toNat = v at *
  split
  · rename_i one
    rw [List.singleton_append, decodeFrom_whole (start_one (by omega)), restored v rfl]
  split
  · rename_i two
    rw [Nat.mod_eq_of_lt (show v / 64 < 32 by omega)]
    simp only [List.cons_append, List.nil_append]
    rw [decodeFrom_first (start_two (by omega) (by omega)), decodeFrom_last, restored]
    · omega
    · show 128 ≤ _; omega
    · show _ ≤ 191; omega
  split
  · rename_i three
    rw [Nat.mod_eq_of_lt (show v / 4096 < 16 by omega)]
    simp only [List.cons_append, List.nil_append]
    rw [decodeFrom_first (start_three (by omega)), decodeFrom_next 0, decodeFrom_last, restored]
    · omega
    · show 128 ≤ _; omega
    · show _ ≤ 191; omega
    · split
      · show 160 ≤ _; omega
      · show 128 ≤ _; omega
    · split
      · show _ ≤ 159; omega
      · show _ ≤ 191; omega
  · rename_i four
    rw [Nat.mod_eq_of_lt (show v / 262144 < 8 by omega)]
    simp only [List.cons_append, List.nil_append]
    rw [decodeFrom_first (start_four (by omega)), decodeFrom_next 1, decodeFrom_next 0, decodeFrom_last, restored]
    · omega
    · show 128 ≤ _; omega
    · show _ ≤ 191; omega
    · show 128 ≤ _; omega
    · show _ ≤ 191; omega
    · split
      · show 144 ≤ _; omega
      · show 128 ≤ _; omega
    · split
      · show _ ≤ 143; omega
      · show _ ≤ 191; omega

/-! ## Texts -/

/-- The bytes of a text are decoded to it, whatever stands behind them. -/
theorem decodeFrom_encode_append (t : Text) (bytes : Bytes) :
    decodeFrom none (encode t ++ bytes) = t.map some ++ decodeFrom none bytes := by
  induction t with
  | nil => rfl
  | cons c t ih =>
    rw [encode, List.flatMap_cons, List.append_assoc, decodeFrom_utf8EncodeChar, ← encode, ih, List.map_cons,
      List.cons_append]

theorem decode_encode (t : Text) : decode (encode t) = t.map some := by
  have decoded := decodeFrom_encode_append t []
  rwa [List.append_nil, decodeFrom, List.append_nil] at decoded

/-- **A text comes back from its bytes.** -/
theorem decode?_encode (t : Text) : decode? (encode t) = some t := by
  rw [decode?, decode_encode]
  induction t with
  | nil => rfl
  | cons c t ih => simp only [List.map_cons, List.mapM_cons, ih]; rfl

/-! ## Texts with the same first bytes -/

theorem encode_append (a b : Text) : encode (a ++ b) = encode a ++ encode b := List.flatMap_append

theorem length_encode (t : Text) : (encode t).length = Text.byteLength t := by
  induction t with
  | nil => rfl
  | cons c t ih =>
    rw [encode, List.flatMap_cons, List.length_append, ← encode, ih, String.length_utf8EncodeChar,
      Text.byteLength_cons]

/-- No text's bytes go on from those of another but where the text does. -/
theorem append_of_encode_eq {t a : Text} {bytes : Bytes} (same : encode t = encode a ++ bytes) :
    ∃ u, t = a ++ u := by
  have decoded : t.map some = a.map some ++ decodeFrom none bytes := by
    rw [← decode_encode, same, decode, decodeFrom_encode_append]
  obtain ⟨b, u, rfl, first, -⟩ := List.map_eq_append_iff.1 decoded
  obtain rfl : b = a := (List.map_inj_right fun _ _ => Option.some.inj).1 first
  exact ⟨u, rfl⟩

/-- Texts with the same first `n` bytes have the same characters as far as these end there. -/
theorem append_of_take_encode_eq {a b t : Text} {n : Nat} (within : Text.byteLength a ≤ n)
    (same : (encode (a ++ b)).take n = (encode t).take n) : ∃ u, t = a ++ u := by
  have begins : (encode t).take n = encode a ++ (encode b).take (n - Text.byteLength a) := by
    rw [← same, encode_append, List.take_append, length_encode, List.take_of_length_le (by rwa [length_encode])]
  have whole : encode t = encode a ++ ((encode b).take (n - Text.byteLength a) ++ (encode t).drop n) := by
    rw [← List.append_assoc, ← begins, List.take_append_drop]
  exact append_of_encode_eq whole

/-! ## ASCII -/

theorem utf8EncodeChar_of_ascii {c : Char} (ascii : c.toNat < 0x80) :
    String.utf8EncodeChar c = [UInt8.ofNat c.toNat] := by
  have small : c.val.toNat ≤ 127 := by
    rw [← Char.toNat]
    omega
  simp only [String.utf8EncodeChar, if_pos small]
  rfl

theorem toNat_ofNat {n : Nat} (valid : n.isValidChar) : (Char.ofNat n).toNat = n := by
  rw [Char.ofNat, dif_pos valid]
  rfl

/-- All bytes of a character beyond ASCII are beyond ASCII. -/
theorem le_of_mem_utf8EncodeChar {c : Char} (beyond : 0x80 ≤ c.toNat) {b : UInt8}
    (member : b ∈ String.utf8EncodeChar c) : 0x80 ≤ b.toNat := by
  have large : ¬c.val.toNat ≤ 127 := by
    rw [← Char.toNat]
    omega
  have byte {n : Nat} (high : 0x80 ≤ n) (fits : n < 256) : 0x80 ≤ (UInt8.ofNat n).toNat := by
    rwa [toNat_byte fits]
  simp only [String.utf8EncodeChar, if_neg large] at member
  split at member
  · simp only [List.mem_cons, List.not_mem_nil, or_false] at member
    rcases member with rfl | rfl <;> exact byte (by omega) (by omega)
  split at member
  · simp only [List.mem_cons, List.not_mem_nil, or_false] at member
    rcases member with rfl | rfl | rfl <;> exact byte (by omega) (by omega)
  · simp only [List.mem_cons, List.not_mem_nil, or_false] at member
    rcases member with rfl | rfl | rfl | rfl <;> exact byte (by omega) (by omega)

/-- The least value that a partial character can be completed to, and the first above all of them. -/
def Partial.least (p : Partial) : Nat := (p.value * 64 + (p.low.toNat - 0x80)) * 64 ^ (p.toCome - 1)

def Partial.bound (p : Partial) : Nat := (p.value * 64 + (p.high.toNat - 0x80) + 1) * 64 ^ (p.toCome - 1)

/-- The partial character is completed to a character beyond ASCII. -/
structure Partial.IsScalar (p : Partial) : Prop where
  toCome : 0 < p.toCome
  low : 0x80 ≤ p.low.toNat
  beyond : 0x80 ≤ p.least
  scalar : p.bound ≤ 0xD800 ∨ 0xE000 ≤ p.least ∧ p.bound ≤ 0x110000

theorem isScalar_of_start {b : UInt8} {p : Partial} (first : start b = .first p) : p.IsScalar := by
  simp only [start, UInt8.lt_iff_toNat_lt, beq_iff_eq, ← UInt8.toNat_inj, UInt8.reduceToNat] at first
  generalize b.toNat = n at first
  split at first
  · cases first
  split at first
  · cases first
  split at first
  · cases first
    constructor <;> simp [Partial.least, Partial.bound] <;> omega
  split at first
  · cases first
    by_cases shortest : n = 224
    · subst shortest
      constructor <;> decide
    by_cases surrogate : n = 237
    · subst surrogate
      constructor <;> decide
    · constructor <;> simp [Partial.least, Partial.bound, shortest, surrogate] <;> omega
  split at first
  · cases first
    by_cases shortest : n = 240
    · subst shortest
      constructor <;> decide
    by_cases last : n = 244
    · subst last
      constructor <;> decide
    · constructor <;> simp [Partial.least, Partial.bound, shortest, last] <;> omega
  · cases first

/-- What a byte in its range leaves of a partial character is completed to the same characters. -/
theorem Partial.IsScalar.next {p : Partial} (isScalar : p.IsScalar) {b : UInt8} (above : p.low ≤ b) (below : b ≤ p.high)
    (more : p.toCome ≠ 1) : (⟨p.toCome - 1, p.value * 64 + (b.toNat - 0x80), 0x80, 0xBF⟩ : Partial).IsScalar := by
  have toCome := isScalar.toCome
  obtain ⟨k, others⟩ : ∃ k, p.toCome - 1 = k + 1 := ⟨p.toCome - 2, by omega⟩
  have value : p.value * 64 + (p.low.toNat - 0x80) ≤ p.value * 64 + (b.toNat - 0x80) ∧
      p.value * 64 + (b.toNat - 0x80) + 1 ≤ p.value * 64 + (p.high.toNat - 0x80) + 1 := by
    rw [UInt8.le_iff_toNat_le] at above below
    omega
  obtain ⟨-, -, beyond, scalar⟩ := isScalar
  rw [Partial.least, others] at beyond
  rw [Partial.least, Partial.bound, others] at scalar
  have least := Nat.mul_le_mul_right (64 ^ (k + 1)) value.1
  have bound := Nat.mul_le_mul_right (64 ^ (k + 1)) value.2
  generalize p.value * 64 + (b.toNat - 0x80) = v at *
  have least' : (⟨k + 1, v, 0x80, 0xBF⟩ : Partial).least = v * 64 ^ (k + 1) := by
    simp only [Partial.least, UInt8.reduceToNat, Nat.add_sub_cancel, Nat.sub_self, Nat.add_zero]
    rw [Nat.pow_succ', Nat.mul_assoc]
  have bound' : (⟨k + 1, v, 0x80, 0xBF⟩ : Partial).bound = (v + 1) * 64 ^ (k + 1) := by
    simp only [Partial.bound, UInt8.reduceToNat, Nat.add_sub_cancel, Nat.add_assoc, Nat.reduceSub, Nat.reduceAdd]
    rw [Nat.pow_succ', ← Nat.mul_assoc, Nat.add_mul v 1 64]
  rw [others]
  exact ⟨Nat.succ_pos k, Nat.le_refl _, by omega, by omega⟩

theorem Partial.IsScalar.last {p : Partial} (isScalar : p.IsScalar) {b : UInt8} (above : p.low ≤ b) (below : b ≤ p.high)
    (last : p.toCome = 1) : 0x80 ≤ (Char.ofNat (p.value * 64 + (b.toNat - 0x80))).toNat := by
  obtain ⟨-, -, beyond, scalar⟩ := isScalar
  rw [Partial.least, last, Nat.sub_self, Nat.pow_zero, Nat.mul_one] at beyond
  rw [Partial.least, Partial.bound, last, Nat.sub_self, Nat.pow_zero, Nat.mul_one, Nat.mul_one] at scalar
  rw [UInt8.le_iff_toNat_le] at above below
  have valid : (p.value * 64 + (b.toNat - 0x80)).isValidChar := by
    rw [Nat.isValidChar]
    omega
  rw [toNat_ofNat valid]
  omega

theorem decodeFrom_none_cons (b : UInt8) (bytes : Bytes) :
    decodeFrom none (b :: bytes) =
      match start b with
      | .whole c => some c :: decodeFrom none bytes
      | .first p => decodeFrom (some p) bytes
      | .bad => none :: decodeFrom none bytes := by
  rw [decodeFrom]
  cases start b <;> rfl

/-- A byte out of range ends the partial character and is read afresh. -/
theorem decodeFrom_some_cons (p : Partial) (b : UInt8) (bytes : Bytes) :
    decodeFrom (some p) (b :: bytes) =
      if p.low ≤ b ∧ b ≤ p.high then
        if p.toCome = 1 then some (Char.ofNat (p.value * 64 + (b.toNat - 0x80))) :: decodeFrom none bytes
        else decodeFrom (some ⟨p.toCome - 1, p.value * 64 + (b.toNat - 0x80), 0x80, 0xBF⟩) bytes
      else none :: decodeFrom none (b :: bytes) := by
  rw [decodeFrom_none_cons, decodeFrom]
  cases start b <;> rfl

theorem byte_of_whole {b : UInt8} {c : Char} (whole : start b = .whole c) : b = UInt8.ofNat c.toNat := by
  simp only [start] at whole
  split at whole
  · rename_i ascii
    rw [UInt8.lt_iff_toNat_lt] at ascii
    have small : b.toNat < 128 := ascii
    have valid : b.toNat.isValidChar := .inl (by omega)
    rw [← Start.whole.inj whole, toNat_ofNat valid, UInt8.ofNat_toNat]
  · split at whole
    · cases whole
    · split at whole
      · cases whole
      · split at whole
        · cases whole
        · split at whole <;> cases whole

/-- A byte of ASCII is a character of its own, whatever character was begun before it. -/
theorem decodeFrom_append {b : UInt8} (ascii : b < 0x80) (left right : Bytes) {pending : Option Partial}
    (isScalar : ∀ p ∈ pending, p.IsScalar) :
    decodeFrom pending (left ++ b :: right) =
      decodeFrom pending left ++ some (Char.ofNat b.toNat) :: decodeFrom none right := by
  have whole : start b = .whole (Char.ofNat b.toNat) := by rw [start, if_pos ascii]
  have nothing : ∀ p ∈ (none : Option Partial), p.IsScalar := by simp
  induction left generalizing pending with
  | nil =>
    cases pending with
    | none => rw [List.nil_append, decodeFrom_whole whole]; rfl
    | some p =>
      have outside : ¬(p.low ≤ b ∧ b ≤ p.high) := by
        have low := (isScalar p rfl).low
        rw [UInt8.lt_iff_toNat_lt] at ascii
        rw [UInt8.le_iff_toNat_le]
        exact fun within => absurd (Nat.le_trans low within.1) (Nat.not_le.2 ascii)
      rw [List.nil_append, decodeFrom_some_cons, if_neg outside, decodeFrom_whole whole]
      rfl
  | cons a left ih =>
    have fresh : decodeFrom none (a :: left ++ b :: right) =
        decodeFrom none (a :: left) ++ some (Char.ofNat b.toNat) :: decodeFrom none right := by
      rw [List.cons_append, decodeFrom_none_cons, decodeFrom_none_cons]
      cases first : start a with
      | whole c => simp only [ih nothing, List.cons_append]
      | first p => exact ih (by simpa using isScalar_of_start first)
      | bad => simp only [ih nothing, List.cons_append]
    cases pending with
    | none => exact fresh
    | some p =>
      rw [List.cons_append, decodeFrom_some_cons, decodeFrom_some_cons]
      split
      · rename_i within
        split
        · rw [ih nothing, List.cons_append]
        · rename_i more
          exact ih (by simpa using (isScalar p rfl).next within.1 within.2 more)
      · rw [← List.cons_append, fresh, List.cons_append]

/-- No character of ASCII is decoded but from its byte. -/
theorem mem_of_mem_decodeFrom {c : Char} (ascii : c.toNat < 0x80) {bytes : Bytes} {pending : Option Partial}
    (isScalar : ∀ p ∈ pending, p.IsScalar) (member : some c ∈ decodeFrom pending bytes) :
    UInt8.ofNat c.toNat ∈ bytes := by
  have nothing : ∀ p ∈ (none : Option Partial), p.IsScalar := by simp
  induction bytes generalizing pending with
  | nil => cases pending <;> simp [decodeFrom] at member
  | cons b bytes ih =>
    have fresh (member : some c ∈ decodeFrom none (b :: bytes)) : UInt8.ofNat c.toNat ∈ b :: bytes := by
      rw [decodeFrom_none_cons] at member
      cases first : start b with
      | whole c' =>
        rw [first] at member
        rcases List.mem_cons.1 member with here | later
        · obtain rfl := byte_of_whole first
          exact Option.some.inj here ▸ List.mem_cons_self
        · exact List.mem_cons_of_mem b (ih nothing later)
      | first p =>
        rw [first] at member
        exact List.mem_cons_of_mem b (ih (by simpa using isScalar_of_start first) member)
      | bad =>
        rw [first] at member
        rcases List.mem_cons.1 member with here | later
        · cases here
        · exact List.mem_cons_of_mem b (ih nothing later)
    cases pending with
    | none => exact fresh member
    | some p =>
      rw [decodeFrom_some_cons] at member
      split at member
      · rename_i within
        split at member
        · rename_i last
          rcases List.mem_cons.1 member with here | later
          · have beyond := (isScalar p rfl).last within.1 within.2 last
            rw [← Option.some.inj here] at beyond
            exact absurd ascii (Nat.not_lt.2 beyond)
          · exact List.mem_cons_of_mem b (ih nothing later)
        · rename_i more
          exact List.mem_cons_of_mem b (ih (by simpa using (isScalar p rfl).next within.1 within.2 more) member)
      · rcases List.mem_cons.1 member with here | later
        · cases here
        · exact fresh later

theorem decodeLossy_append {b : UInt8} (ascii : b < 0x80) (left right : Bytes) :
    decodeLossy (left ++ b :: right) = decodeLossy left ++ Char.ofNat b.toNat :: decodeLossy right := by
  rw [decodeLossy, decode, decodeFrom_append ascii left right (by simp), List.map_append, List.map_cons]
  rfl

theorem mem_of_mem_decodeLossy {c : Char} (ascii : c.toNat < 0x80) {bytes : Bytes} (member : c ∈ decodeLossy bytes) :
    UInt8.ofNat c.toNat ∈ bytes := by
  obtain ⟨o, decoded, same⟩ := List.mem_map.1 member
  cases o with
  | none =>
    rw [← same] at ascii
    exact absurd ascii (by decide)
  | some c' =>
    obtain rfl : c' = c := same
    exact mem_of_mem_decodeFrom ascii (by simp) decoded

theorem decodeLossy_encode (t : Text) : decodeLossy (encode t) = t := by
  rw [decodeLossy, decode_encode, List.map_map]
  exact List.map_id t

theorem decodeFrom_some_ne_nil (p : Partial) (bytes : Bytes) : decodeFrom (some p) bytes ≠ [] := by
  induction bytes generalizing p with
  | nil => nofun
  | cons b bytes ih =>
    rw [decodeFrom_some_cons]
    split
    · split
      · nofun
      · exact ih _
    · nofun

/-- Where there are bytes, something is decoded. -/
theorem decodeLossy_eq_nil_iff {bytes : Bytes} : decodeLossy bytes = [] ↔ bytes = [] := by
  refine ⟨fun nothing => ?_, fun nothing => by rw [nothing]; rfl⟩
  cases bytes with
  | nil => rfl
  | cons b bytes =>
    have decoded := List.map_eq_nil_iff.1 nothing
    rw [decode, decodeFrom_none_cons] at decoded
    cases first : start b with
    | whole c => rw [first] at decoded; cases decoded
    | first p => rw [first] at decoded; exact absurd decoded (decodeFrom_some_ne_nil p bytes)
    | bad => rw [first] at decoded; cases decoded

end CobolAtlas.Utf8
