/-
# CobolAtlas.CommandLine.Arguments -- options and operands of a command

The arguments of a command are options, each with a value, and operands.  A `Form` tells which of them the
command takes.

* The value of an option stands after an equals sign or is the next argument; the next argument is no value
  if it looks like an option.
* After `--` every argument is an operand.
* An option is given once, unless it may be repeated.
* Arguments are read one after the other: the first that the form does not admit, or that asks for help,
  decides.
-/
import CobolAtlas.Text.Basic

namespace CobolAtlas.CommandLine

set_option autoImplicit false

/-- Why arguments are turned down. -/
inductive Refusal where
  /-- Help is asked for. -/
  | help
  | misuse
deriving DecidableEq

/-- The value, or else misuse. -/
def Refusal.require {α : Type} : Option α → Except Refusal α
  | some a => .ok a
  | none => .error .misuse

/-! ## Forms -/

/-- What a value may be. -/
inductive ValueKind where
  | word
  /-- A path that is not empty. -/
  | path
  | oneOf (words : List Text)

/-- May the value be this one? -/
def ValueKind.admits : ValueKind → Text → Bool
  | .word, _ => true
  | .path, value => !value.isEmpty
  | .oneOf words, value => words.contains value

/-- An option that a command knows. -/
structure KnownOption where
  name : Text
  kind : ValueKind
  repeatable : Bool

/-- What a command takes: options, and at most so many operands, each of them a path. -/
structure Form where
  options : List KnownOption
  operands : Nat

/-! ## Reading -/

/-- The arguments of a command, apart: options in order with their values, and operands. -/
structure Arguments where
  options : List (Text × Text)
  operands : List Text

namespace Arguments

/-- Does an argument look like an option? -/
def looksLikeOption (argument : Text) : Bool :=
  match argument with
  | '-' :: _ :: _ => true
  | _ => false

/-- The name of an option and the value attached to it. -/
def attached (option : Text) : Text × Option Text :=
  let name := option.takeWhile (· != '=')
  (name, if option.contains '=' then some (option.drop (name.length + 1)) else none)

/-- With one more option, if the form admits it after those before. -/
def withOption? (a : Arguments) (form : Form) (name value : Text) : Option Arguments :=
  match form.options.find? (·.name == name) with
  | none => none
  | some known =>
      if known.kind.admits value && (known.repeatable || !a.options.any (·.1 == name)) then
        some { a with options := a.options ++ [(name, value)] }
      else none

/-- With one more operand, if the form admits it after those before. -/
def withOperand? (a : Arguments) (form : Form) (operand : Text) : Option Arguments :=
  if ValueKind.path.admits operand && a.operands.length < form.operands then
    some { a with operands := a.operands ++ [operand] }
  else none

/-- Reads the arguments that follow those before them. -/
def readFrom (form : Form) (before : Arguments) : List Text → Except Refusal Arguments
  | [] => .ok before
  | argument :: rest =>
      match argument with
      | ['-', '-'] => rest.foldlM (fun a operand => Refusal.require (a.withOperand? form operand)) before
      | '-' :: '-' :: option =>
          let (name, value) := attached option
          if option = "help".toList then .error .help
          else match value, rest with
            | some value, rest => do
                readFrom form (← Refusal.require (before.withOption? form name value)) rest
            | none, value :: rest => do
                if looksLikeOption value then .error .misuse
                else readFrom form (← Refusal.require (before.withOption? form name value)) rest
            | none, [] => .error .misuse
      | '-' :: 'h' :: _ => .error .help
      | '-' :: _ :: _ => .error .misuse
      | operand => do readFrom form (← Refusal.require (before.withOperand? form operand)) rest

/-- Takes the arguments of a command apart. -/
def read (form : Form) (arguments : List Text) : Except Refusal Arguments :=
  readFrom form ⟨[], []⟩ arguments

/-! ## Looking up -/

/-- The value of an option. -/
def value? (a : Arguments) (name : String) : Option Text := a.options.lookup name.toList

/-- The values of an option that may be repeated, the values of each use separated by commas. -/
def values (a : Arguments) (name : String) : List Text :=
  (a.options.filter (·.1 == name.toList)).flatMap fun o => Text.splitOn ',' o.2

end Arguments

end CobolAtlas.CommandLine
