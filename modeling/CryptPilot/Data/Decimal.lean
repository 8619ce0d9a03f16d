import Mathlib.Algebra.Order.Ring.Nat
import Mathlib.Data.List.DropRight

/-!
# Decimal numbers in text

Reading a number of some width, and writing it: reading what was written gives the number again
(`parseUnsigned_toDigits`), also at the end of a text that does not end with a digit
(`rtakeWhile_append_toDigits`).
-/

namespace CryptPilot.Data.Text

/-- A number below `2 ^ width`, in decimal digits, with or without a plus sign. -/
def parseUnsigned (width : Nat) (text : List Char) : Option Nat :=
  let digits := if text.head? = some '+' then text.tail else text
  let n := Nat.ofDigitChars 10 digits 0
  if digits ≠ [] ∧ digits.all Char.isDigit ∧ n < 2 ^ width then some n else none

section
variable {width n : Nat}

theorem isDigit_of_mem_toDigits {c : Char} (h : c ∈ Nat.toDigits 10 n) : c.isDigit = true :=
  Nat.isDigit_of_mem_toDigits (by decide) (by decide) h

theorem parseUnsigned_toDigits (h : n < 2 ^ width) :
    parseUnsigned width (Nat.toDigits 10 n) = some n := by
  have hsign : (Nat.toDigits 10 n).head? ≠ some '+' := by
    intro hhead
    have hplus := isDigit_of_mem_toDigits (List.mem_of_head? hhead)
    exact absurd hplus (by decide)
  have hall : (Nat.toDigits 10 n).all Char.isDigit = true :=
    List.all_eq_true.mpr fun c hc => isDigit_of_mem_toDigits hc
  simp only [parseUnsigned, if_neg hsign, Nat.ofDigitChars_ten_toDigits]
  exact if_pos ⟨Nat.toDigits_ne_nil, hall, h⟩

/-- The digits at the end of a text are those of a number that was put there. -/
theorem rtakeWhile_append_toDigits {text : List Char}
    (h : ∀ c ∈ text.getLast?, c.isDigit = false) :
    (text ++ Nat.toDigits 10 n).rtakeWhile Char.isDigit = Nat.toDigits 10 n := by
  have hdigits : ∀ c ∈ (Nat.toDigits 10 n).reverse, c.isDigit = true := fun c hc =>
    isDigit_of_mem_toDigits (List.mem_reverse.mp hc)
  have htext : text.reverse.takeWhile Char.isDigit = [] := by
    cases hrev : text.reverse with
    | nil => rfl
    | cons c rest =>
      have hlast : text.getLast? = some c := by rw [← List.head?_reverse, hrev]; rfl
      rw [List.takeWhile_cons_of_neg]
      simp [h c hlast]
  rw [List.rtakeWhile, List.reverse_append, List.takeWhile_append_of_pos hdigits, htext,
    List.append_nil, List.reverse_reverse]

end

end CryptPilot.Data.Text
