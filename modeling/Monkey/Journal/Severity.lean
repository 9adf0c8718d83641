import Monkey.Bytes

/-!
# Severities

The six levels of a journal, from the gravest to the most talkative. A journal that is kept at
some level takes up what is at least as grave.
-/

namespace Monkey.Journal

inductive Severity where
  | crit
  | error
  | warn
  | info
  | debug
  | trace
  deriving DecidableEq, Repr

namespace Severity

def rank : Severity → Nat
  | crit => 0
  | error => 1
  | warn => 2
  | info => 3
  | debug => 4
  | trace => 5

def name : Severity → String
  | crit => "CRIT"
  | error => "ERROR"
  | warn => "WARN"
  | info => "INFO"
  | debug => "DEBUG"
  | trace => "TRACE"

/-- The number of the colour in which a level is shown on a terminal. -/
def colour : Severity → Nat
  | crit => 35
  | error => 31
  | warn => 33
  | info => 32
  | debug => 36
  | trace => 34

/-- The spellings by which a level is asked for. -/
def spellings : List (String × Severity) :=
  [("crit", crit), ("error", error), ("eror", error), ("warn", warn), ("info", info),
   ("debug", debug), ("dbug", debug), ("trace", trace), ("trce", trace)]

def ofText? (text : Bytes) : Option Severity :=
  (spellings.find? fun entry => utf8 entry.1 == text).map Prod.snd

end Severity

end Monkey.Journal
