/-
# CobolAtlas.Proofs.Text.Number -- numerals

The decimal numeral of a number is a run of digits that starts with zero only where the number is zero
(`head?_ofNat`), and a number of 32 bits is read from its numeral (`digitsUInt32?_ofNat`).
-/
import CobolAtlas.Text.Number

namespace CobolAtlas.Text

set_option autoImplicit false

theorem isDigit_of_mem_ofNat {n : Nat} {c : Char} (member : c ∈ ofNat n) : c.isDigit = true :=
  Nat.isDigit_of_mem_toDigits (by decide) (by decide) member

theorem ofNat_ne_nil (n : Nat) : ofNat n ≠ [] := Nat.toDigits_ne_nil

/-- A numeral of more than one digit does not start with zero. -/
theorem head?_ofNat {n : Nat} (positive : 0 < n) : (ofNat n).head? ≠ some '0' := by
  induction n using Nat.base_induction 10 (by decide) with
  | single m small =>
    rw [ofNat, Nat.toDigits_of_lt_base small, List.head?_cons, ne_eq, Option.some.injEq, Nat.digitChar_eq_zero]
    omega
  | digit m k small more ih =>
    have split : ofNat (10 * m + k) = ofNat m ++ ofNat k :=
      (Nat.toDigits_append_toDigits (by decide) more small).symm
    obtain ⟨d, ds, first⟩ := List.exists_cons_of_ne_nil (ofNat_ne_nil m)
    rw [split, first]
    rw [first] at ih
    exact ih more

theorem digitsValue_ofNat (n : Nat) : digitsValue (ofNat n) = n := Nat.ofDigitChars_toDigits (by decide) (by decide)

/-- A number is read from its numeral. -/
theorem digitsUInt32?_ofNat (n : UInt32) : digitsUInt32? (ofNat n.toNat) = some n := by
  have digits : (ofNat n.toNat).all Char.isDigit = true :=
    List.all_eq_true.2 fun c member => isDigit_of_mem_ofNat member
  have nonempty : (ofNat n.toNat).isEmpty = false := List.isEmpty_eq_false_iff.2 (ofNat_ne_nil n.toNat)
  have fits : n.toNat < UInt32.size := n.toNat_lt_size
  simp only [digitsUInt32?, digits, nonempty, digitsValue_ofNat, fits, Bool.not_false, Bool.and_self, decide_true,
    if_true, UInt32.ofNat_toNat]

end CobolAtlas.Text
