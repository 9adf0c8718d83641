import Monkey.Text.Rune

/-!
# Sources of documents

The text of a document is a byte string in UTF-8 or, behind a byte order mark that says so, in
UTF-16. It is read in pieces of 512 bytes, each of which starts where a character does. A character
that is malformed or not allowed makes its piece unreadable, and with it everything after it; a
document that ends before that piece can be read all the same.
-/

namespace Monkey.Yaml

/-- The characters of the readable pieces. The source is `torn` if an unreadable one follows. -/
structure Source where
  chars : List Char
  torn : Bool
  deriving DecidableEq, Repr

namespace Source

/-- The characters that a source may hold. -/
def isAllowed (c : Char) : Bool :=
  let n := c.toNat
  n == 0x09 || n == 0x0a || n == 0x0d || (0x20 ≤ n && n ≤ 0x7e) || n == 0x85 ||
    (0xa0 ≤ n && n ≤ 0xfffd) || 0x10000 ≤ n

/-- The characters of a byte string, each with the number of its bytes. One that is malformed is
missing. -/
abbrev Decoded := List (Option Char × Nat)

def decodeUtf8 (bs : Bytes) : Decoded :=
  (Text.Rune.decode bs).map fun
    | .char c => (some c, (Text.Rune.char c).bytes.length)
    | .stray _ => (none, 1)

/-- The number of a unit of UTF-16. -/
def unit (bigEndian : Bool) (b₀ b₁ : UInt8) : Nat :=
  if bigEndian then b₀.toNat * 0x100 + b₁.toNat else b₁.toNat * 0x100 + b₀.toNat

def isHighSurrogate (n : Nat) : Bool := 0xd800 ≤ n && n ≤ 0xdbff

def isLowSurrogate (n : Nat) : Bool := 0xdc00 ≤ n && n ≤ 0xdfff

/-- The character that a unit stands for together with the one after it, and how many bytes it
takes. -/
def unitChar (first : Nat) (second : Option Nat) : Option Char × Nat :=
  if isLowSurrogate first then (none, 2)
  else if isHighSurrogate first then
    match second with
    | none => (none, 2)
    | some second =>
      if isLowSurrogate second then
        (some (Char.ofNat (0x10000 + (first - 0xd800) * 0x400 + (second - 0xdc00))), 4)
      else (none, 4)
  else (some (Char.ofNat first), 2)

/-- The characters behind the next `skip` bytes. Those read already are held newest first. -/
def decodeUtf16 (bigEndian : Bool) (done : Decoded) (skip : Nat) : Bytes → Decoded
  | [] => done.reverse
  | b₀ :: rest =>
    match skip, rest with
    | skip + 1, _ => decodeUtf16 bigEndian done skip rest
    | 0, [] => ((none, 1) :: done).reverse
    | 0, b₁ :: more =>
      let second := match more with
        | b₂ :: b₃ :: _ => some (unit bigEndian b₂ b₃)
        | _ => none
      let char := unitChar (unit bigEndian b₀ b₁) second
      decodeUtf16 bigEndian (char :: done) (char.2 - 1) rest

/-- How many bytes are read at a time. -/
def pieceSize : Nat := 512

/-- The source with the given characters. Those of the pieces before are `kept` and those of the
piece at hand are `recent`, both newest first, and the piece has `room` for so many more bytes. -/
def ofDecoded (kept recent : List Char) (room : Nat) : Decoded → Source
  | [] => ⟨(recent ++ kept).reverse, false⟩
  | (c, size) :: rest =>
    let fits := decide (size ≤ room)
    let kept := if fits then kept else recent ++ kept
    let recent := if fits then recent else []
    let room := if fits then room else pieceSize
    match c.filter isAllowed with
    | some c => ofDecoded kept (c :: recent) (room - size) rest
    | none => ⟨kept.reverse, true⟩

def ofBytes : Bytes → Source
  | 0xff :: 0xfe :: bs => ofDecoded [] [] (pieceSize - 2) (decodeUtf16 false [] 0 bs)
  | 0xfe :: 0xff :: bs => ofDecoded [] [] (pieceSize - 2) (decodeUtf16 true [] 0 bs)
  | 0xef :: 0xbb :: 0xbf :: bs => ofDecoded [] [] (pieceSize - 3) (decodeUtf8 bs)
  | bs => ofDecoded [] [] pieceSize (decodeUtf8 bs)

end Source

end Monkey.Yaml
