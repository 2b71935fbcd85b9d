/-
# CobolAtlas.Text.Number -- numbers from digits

`unsigned?` reads a number of at most 32 bits from ASCII digits, after an optional plus sign and with any
number of leading zeros.
-/
import CobolAtlas.Text.Basic

namespace CobolAtlas.Text

set_option autoImplicit false

/-- The value of a run of ASCII digits. -/
def digitsValue (digits : Text) : Nat := digits.foldl (fun n c => 10 * n + (c.toNat - '0'.toNat)) 0

/-- The value of a run of at least one ASCII digit, if it fits in 32 bits. -/
def digitsUInt32? (digits : Text) : Option UInt32 :=
  if !digits.isEmpty && digits.all Char.isDigit && digitsValue digits < UInt32.size then
    some (UInt32.ofNat (digitsValue digits))
  else none

/-- A number with an optional plus sign. -/
def unsigned? : Text → Option UInt32
  | '+' :: digits => digitsUInt32? digits
  | digits => digitsUInt32? digits

end CobolAtlas.Text
