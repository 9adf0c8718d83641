import Mathlib.Data.List.Induction
import Mathlib.Data.Nat.Digits.Defs
import Monkey.Text.Decimal

/-!
# Decimal numbers, written and read

The number of a run of digits is the sum of its digits by their place value, which is what
`Nat.ofDigits` gives, and `value` comes to the same from the other end. What is written for a number
is a run of digits with that number again. A run of digits is read as an integer of 64 bits if its
number is less than `2 ^ 63`, however many zeros come first, and not at all otherwise.
-/

namespace Monkey.Text.Decimal

/-- The number of a run of digits, the last of which counts one. -/
def number (digits : Bytes) : Nat := Nat.ofDigits 10 (digits.reverse.map fun b => b.toNat - 0x30)

theorem value_concat (digits : Bytes) (b : UInt8) :
    value (digits ++ [b]) = 10 * value digits + (b.toNat - 0x30) := by
  simp [value]

theorem number_concat (digits : Bytes) (b : UInt8) :
    number (digits ++ [b]) = (b.toNat - 0x30) + 10 * number digits := by
  rw [number, List.reverse_append, List.reverse_singleton, List.singleton_append, List.map_cons]
  exact Nat.ofDigits_cons

theorem value_eq_number (digits : Bytes) : value digits = number digits := by
  induction digits using List.reverseRecOn with
  | nil => rfl
  | append_singleton digits b ih => rw [value_concat, number_concat, ih, Nat.add_comm]

section Writing

theorem toUInt8_digitChar : ∀ d < 10, (Nat.digitChar d).toUInt8 = UInt8.ofNat (0x30 + d) := by
  decide

/-- The last digit is what is left over by ten, and the digits before it are those of the tenth
part. -/
theorem ofNat_eq (n : Nat) :
    ofNat n = (if n < 10 then [] else ofNat (n / 10)) ++ [UInt8.ofNat (0x30 + n % 10)] := by
  have hlast := toUInt8_digitChar (n % 10) (Nat.mod_lt n (by decide))
  rw [ofNat, Nat.toDigits_eq_if (by decide)]
  split
  · next hn =>
      rw [Nat.mod_eq_of_lt hn] at hlast ⊢
      exact congrArg (fun b => [b]) hlast
  · rw [List.map_append, List.map_singleton, hlast]
    rfl

theorem ofNat_ne_nil (n : Nat) : ofNat n ≠ [] := by
  rw [ofNat_eq]
  exact List.append_ne_nil_of_right_ne_nil _ (List.cons_ne_nil _ _)

theorem toNat_digit (n : Nat) : (UInt8.ofNat (0x30 + n % 10)).toNat = 0x30 + n % 10 :=
  UInt8.toNat_ofNat_of_lt' (by simp only [UInt8.size]; omega)

theorem isDigit_digit (n : Nat) : isDigit (UInt8.ofNat (0x30 + n % 10)) = true := by
  simp only [isDigit, Bool.and_eq_true, decide_eq_true_eq, UInt8.le_iff_toNat_le, toNat_digit,
    UInt8.reduceToNat]
  omega

theorem isDigit_of_mem_ofNat (n : Nat) : ∀ b ∈ ofNat n, isDigit b = true := by
  induction n using Nat.strongRecOn with
  | _ n ih =>
      rw [ofNat_eq]
      refine List.forall_mem_append.mpr ⟨?_, List.forall_mem_singleton.mpr (isDigit_digit n)⟩
      split
      · exact List.forall_mem_nil _
      · exact ih (n / 10) (by omega)

/-- What is written for a number has the number. -/
theorem value_ofNat (n : Nat) : value (ofNat n) = n := by
  induction n using Nat.strongRecOn with
  | _ n ih =>
      rw [ofNat_eq, value_concat, toNat_digit]
      split
      · next hn =>
          rw [Nat.mod_eq_of_lt hn]
          exact (Nat.zero_add _).trans (Nat.add_sub_cancel_left 0x30 n)
      · rw [ih (n / 10) (by omega)]
        omega

end Writing

section Reading

variable {digits : Bytes}

theorem int?_of_digits (hne : digits ≠ []) (hdigits : ∀ b ∈ digits, isDigit b = true) :
    int? digits = some (Int.ofNat (value digits)) := by
  have hall : digits.all isDigit = true := List.all_eq_true.mpr hdigits
  have hnat : nat? digits = some (value digits) := by simp [nat?, hne, hall]
  unfold int?
  split
  · exact absurd (hdigits 0x2b (.head _)) (by decide)
  · exact absurd (hdigits 0x2d (.head _)) (by decide)
  · rw [hnat, Option.map_some]

/-- Digits are read if their number fits. -/
theorem int64?_of_digits (hne : digits ≠ []) (hdigits : ∀ b ∈ digits, isDigit b = true) :
    int64? digits =
      if value digits < 9223372036854775808 then some (Int64.ofNat (value digits)) else none := by
  have hfits : fitsInt64 (Int.ofNat (value digits)) =
      decide (value digits < 9223372036854775808) := by
    rw [fitsInt64, ← Bool.decide_and]
    refine decide_eq_decide.mpr ?_
    rw [Int.ofNat_eq_natCast]
    omega
  rw [int64?, int?_of_digits hne hdigits]
  simp only [hfits, decide_eq_true_eq]
  rfl

end Reading

end Monkey.Text.Decimal
