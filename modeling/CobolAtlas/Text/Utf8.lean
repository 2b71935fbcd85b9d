/-
# CobolAtlas.Text.Utf8 -- texts and their bytes

Files hold bytes.  `decode` reads them as UTF-8 with a machine that knows, after each byte, how many
bytes of a character are to come and which range the next one must be in.  Where the bytes are no
character it reports one failure for the longest start of a character and goes on at the byte that did
not fit.  `decodeLossy` puts the replacement character there, `decode?` gives up.
-/
import CobolAtlas.Text.Basic

namespace CobolAtlas

set_option autoImplicit false

/-- The content of a file. -/
abbrev Bytes := List UInt8

namespace Utf8

/-- The UTF-8 form of a text. -/
def encode (t : Text) : Bytes := t.flatMap String.utf8EncodeChar

/-- A character whose first bytes have been read: how many are to come, the value so far, and the range of
the next byte. -/
structure Partial where
  toCome : Nat
  value : Nat
  low : UInt8
  high : UInt8

/-- What a byte is that starts a character. -/
inductive Start where
  | whole (c : Char)
  | first (p : Partial)
  | bad

/-- The first byte of a character. -/
def start (b : UInt8) : Start :=
  if b < 0x80 then .whole (Char.ofNat b.toNat)
  else if b < 0xC2 then .bad
  else if b < 0xE0 then .first ⟨1, b.toNat - 0xC0, 0x80, 0xBF⟩
  else if b < 0xF0 then
    .first ⟨2, b.toNat - 0xE0, if b == 0xE0 then 0xA0 else 0x80, if b == 0xED then 0x9F else 0xBF⟩
  else if b < 0xF5 then
    .first ⟨3, b.toNat - 0xF0, if b == 0xF0 then 0x90 else 0x80, if b == 0xF4 then 0x8F else 0xBF⟩
  else .bad

/-- The characters of bytes that follow a partial character; `none` for a failure. -/
def decodeFrom : Option Partial → Bytes → List (Option Char)
  | none, [] => []
  | some _, [] => [none]
  | pending, b :: bytes =>
      let fresh : List (Option Char) → List (Option Char) := fun before =>
        match start b with
        | .whole c => before ++ some c :: decodeFrom none bytes
        | .first p => before ++ decodeFrom (some p) bytes
        | .bad => before ++ none :: decodeFrom none bytes
      match pending with
      | none => fresh []
      | some p =>
          if p.low ≤ b ∧ b ≤ p.high then
            let value := p.value * 64 + (b.toNat - 0x80)
            if p.toCome = 1 then some (Char.ofNat value) :: decodeFrom none bytes
            else decodeFrom (some ⟨p.toCome - 1, value, 0x80, 0xBF⟩) bytes
          else fresh [none]

/-- The characters of bytes; `none` for a failure. -/
def decode (bytes : Bytes) : List (Option Char) := decodeFrom none bytes

/-- The text with the replacement character for each failure. -/
def decodeLossy (bytes : Bytes) : Text := (decode bytes).map (·.getD (Char.ofNat 0xFFFD))

/-- The text, if there is no failure. -/
def decode? (bytes : Bytes) : Option Text := (decode bytes).mapM id

end Utf8

end CobolAtlas
