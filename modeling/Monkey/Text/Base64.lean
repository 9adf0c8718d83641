import Monkey.Bytes

/-!
# Base 64

Four characters stand for three bytes. The last four may stand for one or two bytes, and are then
filled up with equals signs. Line breaks between the characters do not count.
-/

namespace Monkey.Text.Base64

def digit? (c : Char) : Option Nat :=
  if 'A' ≤ c && c ≤ 'Z' then some (c.toNat - 'A'.toNat)
  else if 'a' ≤ c && c ≤ 'z' then some (c.toNat - 'a'.toNat + 26)
  else if '0' ≤ c && c ≤ '9' then some (c.toNat - '0'.toNat + 52)
  else if c = '+' then some 62
  else if c = '/' then some 63
  else none

/-- The first `count` of the three bytes that four digits stand for. -/
def group? (count : Nat) (digits : List Char) : Option Bytes := do
  let values ← digits.mapM digit?
  let n := values.foldl (fun n d => n * 64 + d) 0
  pure (([n / 65536, n / 256, n].map UInt8.ofNat).take count)

def groups? : List Char → Option Bytes
  | [] => some []
  | [a, b, '=', '='] => group? 1 [a, b, 'A', 'A']
  | [a, b, c, '='] => group? 2 [a, b, c, 'A']
  | a :: b :: c :: d :: rest => do
    let bytes ← group? 3 [a, b, c, d]
    let others ← groups? rest
    pure (bytes ++ others)
  | _ => none

def decode? (text : List Char) : Option Bytes :=
  groups? (text.filter fun c => c != '\n' && c != '\r')

end Monkey.Text.Base64
