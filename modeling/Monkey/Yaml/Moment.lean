import Monkey.Text.Digits

/-!
# Moments

A moment is a date, or a date with a time. Year, month and day are divided by hyphens, and the time
has hours, minutes and seconds, perhaps with a fraction. Behind a letter between date and time an
offset has to follow, and behind a space none may.
-/

namespace Monkey.Yaml.Moment

open Text (digitsIn?)

/-- One or two digits for a number in the given range, and what comes after them. -/
def field? (least most : Nat) (cs : List Char) : Option (Nat × List Char) := do
  let digits := (cs.take 2).takeWhile Char.isDigit
  let n ← digitsIn? 10 digits
  guard (least ≤ n && n ≤ most)
  pure (n, cs.drop digits.length)

def sign? (c : Char) : List Char → Option (List Char)
  | [] => none
  | d :: rest => if c = d then some rest else none

def isLeap (year : Nat) : Bool := year % 4 == 0 && (year % 100 != 0 || year % 400 == 0)

def daysIn (year month : Nat) : Nat :=
  if month = 2 then if isLeap year then 29 else 28
  else if [4, 6, 9, 11].contains month then 30
  else 31

/-- What comes after a date. -/
def date? (cs : List Char) : Option (List Char) := do
  let year := cs.takeWhile Char.isDigit
  guard (year.length = 4)
  let y ← digitsIn? 10 year
  let cs ← sign? '-' (cs.drop 4)
  let (m, cs) ← field? 1 12 cs
  let cs ← sign? '-' cs
  let (d, cs) ← field? 1 31 cs
  guard (d ≤ daysIn y m)
  pure cs

/-- What comes after a fraction, if there is one. -/
def fraction (cs : List Char) : List Char :=
  match cs with
  | mark :: d :: rest =>
    if (mark = '.' || mark = ',') && d.isDigit then rest.dropWhile Char.isDigit else cs
  | _ => cs

/-- What comes after a time. -/
def time? (cs : List Char) : Option (List Char) := do
  let (_, cs) ← field? 0 23 cs
  let cs ← sign? ':' cs
  let (_, cs) ← field? 0 59 cs
  let cs ← sign? ':' cs
  let (_, cs) ← field? 0 59 cs
  pure (fraction cs)

/-- Whether a text is the distance from universal time. -/
def isOffset : List Char → Bool
  | ['Z'] => true
  | [mark, a, b, ':', c, d] =>
    (mark = '+' || mark = '-') && (digitsIn? 10 [a, b]).any (· ≤ 24) &&
      (digitsIn? 10 [c, d]).any (· ≤ 60)
  | _ => false

/-- Whether a text is a moment. -/
def isMoment (cs : List Char) : Bool :=
  match date? cs with
  | none => false
  | some [] => true
  | some (c :: rest) =>
    if c = 'T' || c = 't' then (time? rest).any isOffset
    else c = ' ' && time? rest = some []

end Monkey.Yaml.Moment
