import Monkey.Files
import Monkey.Session.Lines
import Monkey.Text.Decimal
import Monkey.Text.Rune

/-!
# Histories

The inputs of earlier sessions and of this one, oldest first. An input that equals the one before
it is not kept twice, and of too many the oldest go. In a file every entry is a line.
-/

namespace Monkey.Session

abbrev History := List Bytes

namespace History

/-- How many entries are kept. -/
def limit : Nat := 1000

/-- The newest entries, as many as are kept. -/
def trimmed (h : History) : History := h.drop (h.length - limit)

/-- Adds an entry whatever it is. -/
def add (h : History) (entry : Bytes) : History := trimmed (h ++ [entry])

/-- Adds an entry unless it is the newest one already. -/
def append (h : History) (entry : Bytes) : History :=
  if h.getLast? = some entry then h else h.add entry

/-- The entry of an input: its lines side by side. -/
def entryOf (input : Bytes) : Bytes := input.map fun b => if b = 0x0a then 0x20 else b

def text (h : History) : Bytes := h.flatMap fun entry => entry ++ utf8 "\n"

/-- Why a history cannot be read further. -/
inductive Fault where
  | overlong (line : Nat)
  | malformed (line : Nat)
  | unreadable (path : Bytes)
  deriving DecidableEq, Repr

def Fault.message : Fault → Bytes
  | overlong line => utf8 "line " ++ Text.Decimal.ofNat line ++ utf8 " is too long"
  | malformed line => utf8 "invalid string at line " ++ Text.Decimal.ofNat line
  | unreadable path => Files.Fault.isDirectory.message "read" path

/-- Adds the lines of a file, up to one that cannot be read. `count` lines were read before. -/
def readOnto (h : History) (count : Nat) : List Piece → History × Option Fault
  | [] => (h, none)
  | piece :: rest =>
    if piece.goesOn then (h, some (.overlong (count + 1)))
    else if !Text.isWellFormed piece.text then (h, some (.malformed (count + 1)))
    else readOnto (h.add piece.text) (count + 1) rest

def ofContent (content : Bytes) : History × Option Fault := readOnto [] 0 (pieces content)

/-- The history in a file. A file that cannot be opened holds none. -/
def load (find : Files.Finder) (path : Bytes) : History × Option Fault :=
  match find path with
  | .ok (.file content) => ofContent content
  | .ok .directory => ([], some (.unreadable path))
  | .error _ => ([], none)

end History

end Monkey.Session
