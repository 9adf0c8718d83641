import Monkey.Text.Base64
import Monkey.Text.Decimal
import Monkey.Text.Double
import Monkey.Yaml.Moment
import Monkey.Yaml.Node

/-!
# The meaning of a scalar

A plain scalar means what its text looks like: nothing, a truth value, a whole number, a fraction,
or else the text itself. A text between quotes is always a text. A tag can ask for another meaning,
and fails if the text does not have it; tags that are not known leave a text.
-/

namespace Monkey.Yaml

open Text (digitsIn? Double)

inductive Tag where
  | unspecified
  | null
  | flag
  | whole
  | fraction
  | moment
  | text
  | binary
  | other
  deriving DecidableEq, Repr

/-- The tags that are known. They are written out, or with two exclamation marks. -/
def Tag.ofBytes (bs : Bytes) : Tag :=
  let known := [("null", null), ("bool", flag), ("int", whole), ("float", fraction),
    ("timestamp", moment), ("str", text), ("binary", binary)]
  if bs = [] || bs = utf8 "!" then unspecified
  else ((known.find? fun entry =>
    bs = utf8 ("tag:yaml.org,2002:" ++ entry.1) || bs = utf8 ("!!" ++ entry.1)).map
      Prod.snd).getD other

inductive Meaning where
  | null
  | flag (value : Bool)
  | whole (value : Int)
  | fraction (value : Double)
  | moment
  | text (value : Bytes)
  deriving DecidableEq, Repr

namespace Meaning

/-- The words that have a meaning of their own. -/
def words : List (String × Meaning) :=
  [("", null), ("~", null), ("null", null), ("Null", null), ("NULL", null),
    ("true", flag true), ("True", flag true), ("TRUE", flag true),
    ("false", flag false), ("False", flag false), ("FALSE", flag false),
    (".nan", fraction .undefined), (".NaN", fraction .undefined), (".NAN", fraction .undefined),
    (".inf", fraction (.infinite false)), (".Inf", fraction (.infinite false)),
    (".INF", fraction (.infinite false)), ("+.inf", fraction (.infinite false)),
    ("+.Inf", fraction (.infinite false)), ("+.INF", fraction (.infinite false)),
    ("-.inf", fraction (.infinite true)), ("-.Inf", fraction (.infinite true)),
    ("-.INF", fraction (.infinite true))]

/-- A whole number without sign: decimal, or with a mark for base two, eight or sixteen. A leading
zero marks base eight. -/
def natural? : List Char → Option Nat
  | '0' :: 'x' :: cs => digitsIn? 16 cs
  | '0' :: 'X' :: cs => digitsIn? 16 cs
  | '0' :: 'b' :: cs => digitsIn? 2 cs
  | '0' :: 'B' :: cs => digitsIn? 2 cs
  | '0' :: 'o' :: cs => digitsIn? 8 cs
  | '0' :: 'O' :: cs => digitsIn? 8 cs
  | ['0'] => some 0
  | '0' :: cs => digitsIn? 8 cs
  | cs => digitsIn? 10 cs

/-- Whether a number has a minus sign, and what comes after its sign. -/
def sign : List Char → Bool × List Char
  | '+' :: cs => (false, cs)
  | '-' :: cs => (true, cs)
  | cs => (false, cs)

def signed? (natural : List Char → Option Nat) (cs : List Char) : Option Int :=
  (natural (sign cs).2).map fun n => if (sign cs).1 then -Int.ofNat n else Int.ofNat n

/-- A whole number in 64 bits. Without a sign it may take them all. -/
def whole? (cs : List Char) : Option Int := do
  let n ← signed? natural? cs
  guard (Text.Decimal.fitsInt64 n || (sign cs == (false, cs) && n ≤ 18446744073709551615))
  pure n

/-- A whole number with its sign between the mark of its base and the digits. -/
def wholeBehindBase? (cs : List Char) : Option Int := do
  let n ← match cs with
    | '0' :: 'b' :: cs => signed? (digitsIn? 2) cs
    | '0' :: 'o' :: cs => signed? (digitsIn? 8) cs
    | _ => none
  guard (Text.Decimal.fitsInt64 n)
  pure n

/-- A decimal fraction with an optional exponent. There is a digit before its point or after it. -/
def fraction? (cs : List Char) : Option Double := do
  let (negative, cs) := sign cs
  let before := cs.takeWhile Char.isDigit
  let cs := cs.drop before.length
  let (after, cs) := match cs with
    | '.' :: more => (more.takeWhile Char.isDigit, more.dropWhile Char.isDigit)
    | _ => ([], cs)
  let digits ← digitsIn? 10 (before ++ after)
  let exponent ← match cs with
    | [] => some 0
    | c :: cs => if c = 'e' || c = 'E' then signed? (digitsIn? 10) cs else none
  Double.ofDecimal? negative digits (exponent - after.length)

/-- The number that a text stands for. Underscores between the digits do not count, unless it starts
with a point. -/
def number? (cs : List Char) : Option Meaning :=
  match cs with
  | [] => none
  | c :: _ =>
    if c = '.' then (fraction? cs).map fraction
    else if c.isDigit || c = '+' || c = '-' then
      let plain := cs.filter (· != '_')
      ((whole? plain).map whole).or
        (((fraction? plain).map fraction).or ((wholeBehindBase? plain).map whole))
    else none

/-- What a text looks like. -/
def ofText (cs : List Char) : Meaning :=
  let word := String.ofList cs
  match words.find? fun entry => entry.1 = word with
  | some (_, meaning) => meaning
  | none => (number? cs).getD (text (utf8 word))

/-- The meaning of a scalar, if it has the one that its tag asks for. -/
def ofScalar? (tag : Tag) (plain : Bool) (cs : List Char) : Option Meaning :=
  let content := text (utf8 (String.ofList cs))
  let natural := ofText cs
  match tag, natural with
  | .unspecified, _ => some (if plain then natural else content)
  | .text, _ => some content
  | .other, _ => some content
  | .binary, _ => (Text.Base64.decode? cs).map text
  | .null, null => some null
  | .flag, flag b => some (flag b)
  | .whole, whole n => some (whole n)
  | .fraction, fraction x => some (fraction x)
  | .fraction, whole n => if Text.Decimal.fitsInt64 n then (Double.ofInt? n).map fraction else none
  | .moment, _ => if Moment.isMoment cs then some moment else none
  | _, _ => none

end Meaning

end Monkey.Yaml
