import Monkey.Text.Rune

/-!
# Blanks

White space in the sense of the Unicode property of that name. `trimStart` takes the blanks off
the start of a text, `trim` off both ends, and `fields` gives the stretches between them.
-/

namespace Monkey.Text

def isBlank (c : Char) : Bool :=
  let n := c.toNat
  (0x09 ≤ n && n ≤ 0x0d) || n == 0x20 || n == 0x85 || n == 0xa0 || n == 0x1680 ||
    (0x2000 ≤ n && n ≤ 0x200a) || n == 0x2028 || n == 0x2029 || n == 0x202f || n == 0x205f ||
    n == 0x3000

def Rune.isBlank : Rune → Bool
  | .char c => Text.isBlank c
  | .stray _ => false

/-- The text without the blanks at its start, when `skip` more bytes of a blank are to come. -/
def trimStartFrom (skip : Nat) : Bytes → Bytes
  | [] => []
  | b :: rest =>
    match skip with
    | skip + 1 => trimStartFrom skip rest
    | 0 =>
      let (rune, more) := Rune.first b rest
      if rune.isBlank then trimStartFrom more rest else b :: rest

/-- The text without the blanks at its start. -/
def trimStart (bs : Bytes) : Bytes := trimStartFrom 0 bs

def trim (bs : Bytes) : Bytes :=
  Rune.encode ((Rune.decode (trimStart bs)).reverse.dropWhile Rune.isBlank).reverse

/-- The stretches without a blank, in order. -/
def fields (bs : Bytes) : List Bytes :=
  (((Rune.decode bs).splitOnP Rune.isBlank).filter fun rs => !rs.isEmpty).map Rune.encode

end Monkey.Text
