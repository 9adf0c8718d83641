import Monkey.Text.Rune
import Monkey.Text.Decimal

/-!
# Tables

A table with lines around and between its columns. Every column is as wide as its widest cell,
with a space on each side. Header and footer are written in capitals and centred, numbers stand on
the right, and everything else on the left.
-/

namespace Monkey.Text

structure Table where
  header : List Bytes
  rows : List (List Bytes)
  footer : Option (List Bytes)

namespace Table

def capital (b : UInt8) : UInt8 := if 0x61 ≤ b && b ≤ 0x7a then b - 0x20 else b

def capitals (cell : Bytes) : Bytes := cell.map capital

def width (cell : Bytes) : Nat := (Rune.decode cell).length

def spaces (n : Nat) : Bytes := List.replicate n 0x20

def toLeft (w : Nat) (cell : Bytes) : Bytes := cell ++ spaces (w - width cell)

def toRight (w : Nat) (cell : Bytes) : Bytes := spaces (w - width cell) ++ cell

/-- Of an odd number of spaces the odd one goes to the right. -/
def centred (w : Nat) (cell : Bytes) : Bytes :=
  let gap := w - width cell
  spaces (gap / 2) ++ cell ++ spaces (gap - gap / 2)

def isDigits (bs : Bytes) : Bool := !bs.isEmpty && bs.all Decimal.isDigit

/-- A whole number, either without commas or with one before every three digits. -/
def isWhole (bs : Bytes) : Bool :=
  isDigits bs || match bs.splitOn 0x2c with
    | first :: groups =>
      isDigits first && first.length ≤ 3 && groups.all fun g => isDigits g && g.length = 3
    | [] => false

/-- A whole number or a decimal fraction, with an optional minus sign. -/
def isNumber (cell : Bytes) : Bool :=
  let unsigned := match cell with
    | 0x2d :: rest => rest
    | _ => cell
  match unsigned.splitOn 0x2e with
  | [whole] => isWhole whole
  | [whole, fraction] => isWhole whole && isDigits fraction
  | _ => false

def place (w : Nat) (cell : Bytes) : Bytes :=
  if isNumber cell then toRight w cell else toLeft w cell

/-- The widths of the columns. -/
def widths (t : Table) : List Nat :=
  let all := t.header :: t.rows ++ t.footer.toList
  t.header.mapIdx fun i _ => (all.map fun row => width (row.getD i [])).foldl max 0

def rule (ws : List Nat) : Bytes :=
  utf8 "+" ++ (ws.flatMap fun w => List.replicate (w + 2) 0x2d ++ utf8 "+") ++ utf8 "\n"

def line (put : Nat → Bytes → Bytes) (ws : List Nat) (row : List Bytes) : Bytes :=
  utf8 "|" ++ ((ws.zip row).flatMap fun (w, cell) => utf8 " " ++ put w cell ++ utf8 " |") ++
    utf8 "\n"

def render (t : Table) : Bytes :=
  let ws := t.widths
  let heading (row : List Bytes) : Bytes := line centred ws (row.map capitals)
  rule ws ++ heading t.header ++ rule ws ++ t.rows.flatMap (line place ws) ++ rule ws ++
    match t.footer with
    | some row => heading row ++ rule ws
    | none => []

end Table

end Monkey.Text
