/-
# CobolAtlas.Path.Bytes -- names as bytes

The system names files by bytes, which need not be UTF-8.  It knows no NUL in a name, so a text can write every name:
a NUL followed by a character from U+0080 to U+00FF stands for the byte of that number, and all else for its
UTF-8 form (`bytesOf`).  A byte is written so where it is part of no character.

What a program records or prints of a name is text: bytes that are none are replaced (`shown`).  So different names
may be shown alike.
-/
import CobolAtlas.Text.Utf8

namespace CobolAtlas.Path

set_option autoImplicit false

/-- Does the character stand for a byte where a NUL comes before it? -/
def isRawByte (c : Char) : Bool := 0x80 ≤ c.toNat && c.toNat < 0x100

/-- The bytes that a text writes, after a NUL where `marked`. -/
def bytesFrom : Bool → Text → Bytes
  | false, [] => []
  | true, [] => [0]
  | false, c :: t => if c = '\x00' then bytesFrom true t else String.utf8EncodeChar c ++ bytesFrom false t
  | true, c :: t =>
      if isRawByte c then UInt8.ofNat c.toNat :: bytesFrom false t
      else 0 :: if c = '\x00' then bytesFrom true t else String.utf8EncodeChar c ++ bytesFrom false t

/-- The bytes of the name that a text writes. -/
def bytesOf (name : Text) : Bytes := bytesFrom false name

/-- The text that is shown for a name. -/
def shownText (name : Text) : Text := Utf8.decodeLossy (bytesOf name)

end CobolAtlas.Path
