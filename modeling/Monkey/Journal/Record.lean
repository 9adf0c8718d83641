import Monkey.Journal.Severity
import Monkey.Text.Quoted
import Monkey.Text.Decimal

/-!
# Records

A record of the journal has a severity, the component that wrote it, a message, and further
fields. A line shows a record as its level and message followed by `key=value` for the component
and each field. A value is quoted if it holds anything that would make the line ambiguous, and a
large number has a comma before every three digits. A line has single spaces only.
-/

namespace Monkey.Journal

inductive Component where
  | grammar
  | evaluation
  | interpreter
  | session
  deriving DecidableEq, Repr

def Component.name : Component → String
  | grammar => "parser"
  | evaluation => "eval"
  | interpreter => "interpreter"
  | session => "repl"

inductive Field where
  | text (value : Bytes)
  | number (value : Int)
  deriving DecidableEq, Repr

structure Record where
  severity : Severity
  component : Component
  message : Bytes
  fields : List (String × Field)
  deriving DecidableEq, Repr

/-- The digits of a number with a comma before every three, counted from the right. -/
def groupDigits (digits : Bytes) : Bytes :=
  match digits.length % 3, digits with
  | 0, digits => grouped digits
  | 1, a :: rest => a :: tailed rest
  | _, a :: b :: rest => a :: b :: tailed rest
  | _, digits => digits
where
  /-- Groups of three, each with a comma before it. -/
  tailed : Bytes → Bytes
    | a :: b :: c :: rest => utf8 "," ++ [a, b, c] ++ tailed rest
    | _ => []
  /-- Groups of three with a comma between each two. -/
  grouped : Bytes → Bytes
    | a :: b :: c :: rest => [a, b, c] ++ tailed rest
    | digits => digits

/-- Whether a value can stand in a line as it is. -/
def isBare (value : Bytes) : Bool :=
  (Text.Rune.decode value).all fun
    | .char c => 0x22 < c.toNat && c.toNat ≤ 0x7e && c != '='
    | .stray _ => false

namespace Field

/-- The plain text of a value. -/
def plain : Field → Bytes
  | text value => value
  | number value => Text.Decimal.ofInt value

/-- A value as it stands in a line. -/
def shown : Field → Bytes
  | text value => if isBare value then value else Text.quote value
  | number value =>
    let digits := Text.Decimal.ofNat value.natAbs
    (if value < 0 then utf8 "-" else []) ++
      (if value.natAbs < 100000 then digits else groupDigits digits)

end Field

namespace Record

/-- The fields, with the component before them. -/
def allFields (r : Record) : List (String × Field) :=
  ("module", .text (utf8 r.component.name)) :: r.fields

/-- Level, message, and keys and values in turn. -/
def cells (r : Record) : List Bytes :=
  utf8 r.severity.name :: r.message ::
    r.allFields.flatMap fun (key, value) => [utf8 key, value.plain]

/-- A text in the given colour, if colours are on. -/
def coloured (on : Bool) (colour : Nat) (text : Bytes) : Bytes :=
  if on then
    utf8 "\x1b[" ++ Text.Decimal.ofNat colour ++ utf8 "m" ++ text ++ utf8 "\x1b[0m"
  else text

/-- The level, filled up with spaces to the width of the longest. -/
def paddedLevel (s : Severity) : Bytes :=
  let name := utf8 s.name
  name ++ List.replicate (5 - name.length) 0x20

/-- One space in place of every run of spaces. -/
def squeeze : Bytes → Bytes
  | 0x20 :: 0x20 :: rest => squeeze (0x20 :: rest)
  | b :: rest => b :: squeeze rest
  | [] => []

def line (colours : Bool) (r : Record) : Bytes :=
  let shade := coloured colours r.severity.colour
  let fields := r.allFields.map fun (key, value) => shade (utf8 key) ++ utf8 "=" ++ value.shown
  squeeze (Bytes.join (utf8 " ") (shade (paddedLevel r.severity) :: r.message :: fields))

end Record

end Monkey.Journal
