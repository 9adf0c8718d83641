import Monkey.Bytes

/-!
# Decimal numbers

Writing puts no leading zero and a minus sign before a negative number. Reading takes an optional
sign and at least one digit, nothing else, and refuses what does not fit into 64 bits with a sign.
-/

namespace Monkey.Text.Decimal

def isDigit (b : UInt8) : Bool := 0x30 ≤ b && b ≤ 0x39

def ofNat (n : Nat) : Bytes := (Nat.toDigits 10 n).map Char.toUInt8

def ofInt : Int → Bytes
  | .ofNat n => ofNat n
  | .negSucc n => utf8 "-" ++ ofNat (n + 1)

/-- The number that a run of digits stands for. -/
def value (digits : Bytes) : Nat :=
  digits.foldl (fun n b => 10 * n + (b.toNat - 0x30)) 0

/-- The number of a non-empty run of digits. -/
def nat? (bs : Bytes) : Option Nat :=
  if !bs.isEmpty && bs.all isDigit then some (value bs) else none

/-- The number of a run of digits with an optional sign before it. -/
def int? : Bytes → Option Int
  | 0x2b :: bs => (nat? bs).map Int.ofNat
  | 0x2d :: bs => (nat? bs).map fun n => -Int.ofNat n
  | bs => (nat? bs).map Int.ofNat

def fitsInt64 (n : Int) : Bool := -9223372036854775808 ≤ n && n ≤ 9223372036854775807

def int64? (bs : Bytes) : Option Int64 :=
  match int? bs with
  | some n => if fitsInt64 n then some (Int64.ofInt n) else none
  | none => none

end Monkey.Text.Decimal
