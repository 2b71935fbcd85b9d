/-
# CobolAtlas.Json.Basic -- JSON values between records and text

Records are written to and read from `Json` values, and values are printed and read by modules of their
own.  A value keeps the numerals as they are written and the members of an object in order, repeated
names included.  A string token may escape half of a surrogate pair; it is then well-formed but is no
text, and its text is `none`.
-/
import CobolAtlas.Text.Number

namespace CobolAtlas

set_option autoImplicit false

/-- A JSON value. -/
inductive Json where
  | null
  | bool (value : Bool)
  | number (numeral : Text)
  | string (text : Option Text)
  | array (elements : List Json)
  | object (members : List (Option Text × Json))
deriving Inhabited

namespace Json

/-! ## Building values -/

/-- A string value. -/
def ofText (t : Text) : Json := .string (some t)

/-- A number of lines, levels or errors. -/
def ofUInt32 (n : UInt32) : Json := .number (Text.ofNat n.toNat)

/-- A value or null. -/
def ofOption {α : Type} (encode : α → Json) : Option α → Json
  | none => .null
  | some a => encode a

/-- A list of values. -/
def ofList {α : Type} (encode : α → Json) (as : List α) : Json := .array (as.map encode)

/-- One member of an object. -/
def member (name : String) (value : Json) : List (Option Text × Json) := [(some name.toList, value)]

/-- A member that is left out where there is no value. -/
def optional {α : Type} (name : String) (encode : α → Json) : Option α → List (Option Text × Json)
  | none => []
  | some a => member name (encode a)

/-! ## Taking values apart -/

/-- The text of a string. -/
def asText? : Json → Option Text
  | .string text => text
  | _ => none

/-- The truth value. -/
def asBool? : Json → Option Bool
  | .bool value => some value
  | _ => none

/-- The value of a numeral without sign, fraction and exponent, if it fits in 32 bits. -/
def asUInt32? : Json → Option UInt32
  | .number numeral => Text.digitsUInt32? numeral
  | _ => none

/-- All elements of an array, each by `decode`. -/
def asList? {α : Type} (decode : Json → Option α) : Json → Option (List α)
  | .array elements => elements.mapM decode
  | _ => none

/-- Null, or a value by `decode`. -/
def asOption? {α : Type} (decode : Json → Option α) : Json → Option (Option α)
  | .null => some none
  | value => (decode value).map some

/-! ## Records -/

/-- The values of a record's fields.  A field of the record that occurs twice, and a member whose name is
no text, make the record unreadable; members of other names do not count.  A record may also be an array
of its fields in order, of which those from the `required`-th on may be missing. -/
def fields? (names : List Text) (required : Nat) : Json → Option (List (Option Json))
  | .object members => do
      let named ← members.mapM fun m => m.1.map fun name => (name, m.2)
      if names.any fun name => 1 < named.countP (·.1 == name) then none
      else some (names.map fun name => List.lookup name named)
  | .array elements =>
      if required ≤ elements.length ∧ elements.length ≤ names.length then
        some (elements.map some ++ List.replicate (names.length - elements.length) none)
      else none
  | _ => none

/-- A field that must be present. -/
def need? {α : Type} (decode : Json → Option α) : Option Json → Option α
  | none => none
  | some value => decode value

/-- A field with a value for its absence. -/
def orElse? {α : Type} (absent : α) (decode : Json → Option α) : Option Json → Option α
  | none => some absent
  | some value => decode value

end Json

end CobolAtlas
