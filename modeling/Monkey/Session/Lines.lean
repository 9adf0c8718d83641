import Monkey.Bytes

/-!
# Lines

How input is cut into lines. A line ends with a line feed, and a carriage return directly before
it goes with it. The two ways in which input is read differ in what they make of a long line, and
of a carriage return at the very end.

`Lines.ofInput` reads whole lines. What comes after the last line feed is a line if it is not
empty, and it loses its carriage return as well. A line that does not fit is not read, nor is
anything after it.

`pieces` reads through a window of fixed size. A line that does not fit into the window comes in
pieces; a carriage return at the end of a piece is left for the next one.
-/

namespace Monkey.Session

/-- Lines that were read, and whether reading stopped at one that is too long. -/
structure Lines where
  lines : List Bytes
  overlong : Bool
  deriving DecidableEq, Repr

namespace Lines

/-- One byte more than the longest line. -/
def limit : Nat := 16777216

/-- A line given backwards, without the carriage return at its end. -/
def finish : Bytes → Bytes
  | 0x0d :: rest => rest.reverse
  | line => line.reverse

/-- Reads on, after the lines so far, newest first, and the start of the next line, which is given
backwards with its length. -/
def readOnto (done : List Bytes) (line : Bytes) (length : Nat) : Bytes → Lines
  | [] => ⟨(if line.isEmpty then done else finish line :: done).reverse, false⟩
  | b :: rest =>
    if b = 0x0a then readOnto (finish line :: done) [] 0 rest
    else if limit ≤ length + 1 then ⟨done.reverse, true⟩
    else readOnto done (b :: line) (length + 1) rest

def ofInput (input : Bytes) : Lines := readOnto [] [] 0 input

end Lines

/-- A line, or a part of one that goes on. -/
structure Piece where
  text : Bytes
  goesOn : Bool
  deriving DecidableEq, Repr

namespace Piece

def windowSize : Nat := 4096

/-- Reads on, after the pieces so far, newest first, and the start of the next one, which is given
backwards with its length. -/
def readOnto (done : List Piece) (piece : Bytes) (length : Nat) : Bytes → List Piece
  | [] => (if piece.isEmpty then done else ⟨piece.reverse, false⟩ :: done).reverse
  | b :: rest =>
    if b = 0x0a then readOnto (⟨Lines.finish piece, false⟩ :: done) [] 0 rest
    else if length + 1 < windowSize then readOnto done (b :: piece) (length + 1) rest
    else if b = 0x0d then readOnto (⟨piece.reverse, true⟩ :: done) [b] 1 rest
    else readOnto (⟨(b :: piece).reverse, true⟩ :: done) [] 0 rest

end Piece

def pieces (input : Bytes) : List Piece := Piece.readOnto [] [] 0 input

end Monkey.Session
