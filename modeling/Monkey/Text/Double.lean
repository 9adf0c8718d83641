/-!
# Numbers of double precision

A decimal fraction stands for the nearest number that has a mantissa of 53 binary digits and an
exponent in the range of double precision. Of two that are equally near it is the one with the even
mantissa. What is nearer to the first number beyond the range than to the last one in it stands for
none.
-/

namespace Monkey.Text

/-- A finite number is its mantissa times the power of two with its exponent. -/
inductive Double where
  | finite (negative : Bool) (mantissa : Nat) (exponent : Int)
  | infinite (negative : Bool)
  | undefined
  deriving DecidableEq, Repr

namespace Double

def zero (negative : Bool) : Double := finite negative 0 0

/-- The quotient rounded to the nearest whole number, a half to the even one. -/
def roundDiv (num den : Nat) : Nat :=
  let quotient := num / den
  let double := 2 * (num % den)
  if double < den then quotient
  else if den < double then quotient + 1
  else quotient + quotient % 2

def leastExponent : Int := -1074

def greatestExponent : Int := 971

/-- The mantissa of a quotient with the given exponent: without rounding, and rounded. -/
def mantissas (num den : Nat) (exponent : Int) : Nat × Nat :=
  let num := num * Nat.pow 2 (-exponent).toNat
  let den := den * Nat.pow 2 exponent.toNat
  (num / den, roundDiv num den)

/-- The number nearest to a positive quotient. The exponent is first taken from the lengths of its
parts, which makes it at most one too large. -/
def nearest? (negative : Bool) (num den : Nat) : Option Double :=
  let guess := Int.ofNat num.log2 - Int.ofNat den.log2 - 52
  let guess := if (mantissas num den guess).1 < 4503599627370496 then guess - 1 else guess
  let exponent := max guess leastExponent
  let mantissa := (mantissas num den exponent).2
  if greatestExponent < exponent ||
      (exponent = greatestExponent && mantissa = 9007199254740992) then none
  else some (finite negative mantissa exponent)

/-- The number nearest to `digits` times a power of ten. Powers far out of the range are not
computed. -/
def ofDecimal? (negative : Bool) (digits : Nat) (power : Int) : Option Double :=
  if digits = 0 then some (zero negative)
  else if 400 < power then none
  else if 0 ≤ power then nearest? negative (digits * Nat.pow 10 power.toNat) 1
  else if digits.log2 + 1200 < 3 * (-power).toNat then some (zero negative)
  else nearest? negative digits (Nat.pow 10 (-power).toNat)

def ofInt? (n : Int) : Option Double := ofDecimal? (n < 0) n.natAbs 0

/-- The whole part, if the number is finite. -/
def truncate? : Double → Option Int
  | finite negative mantissa exponent =>
    let size := mantissa * Nat.pow 2 exponent.toNat / Nat.pow 2 (-exponent).toNat
    some (if negative then -Int.ofNat size else Int.ofNat size)
  | _ => none

end Double

end Monkey.Text
