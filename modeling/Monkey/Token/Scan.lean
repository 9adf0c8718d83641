import Monkey.Token.Basic

/-!
# Cutting a source into tokens

A source is read from left to right. Between two tokens any number of blanks is skipped: spaces,
tabs, carriage returns and line feeds. At the next byte the longest token is taken: a run of
letters is a word, a run of digits a number, `==` and `!=` are one token each, and every other
byte is a token by itself, an illegal one if the language has no use for it. An illegal token
keeps the character with the number of its byte, every other token keeps the bytes it was cut
from.

`lexeme` cuts one token off, `next?` skips the blanks before it, and `scan` goes through a whole
source. The end of the source is not a byte: a byte zero is illegal like any other. Whoever reads on
there by `next` gets the end token, and each time goes one column further.
-/

namespace Monkey.Token

def isBlank (b : UInt8) : Bool := b == 0x20 || b == 0x09 || b == 0x0a || b == 0x0d

/-- The letters, to which the underscore belongs. -/
def isLetter (b : UInt8) : Bool :=
  (0x61 ≤ b && b ≤ 0x7a) || (0x41 ≤ b && b ≤ 0x5a) || b == 0x5f

def isDigit (b : UInt8) : Bool := Text.Decimal.isDigit b

/-- The kind of a token of one byte. -/
def byteKind (b : UInt8) : Kind :=
  match b with
  | 0x3d => .assign
  | 0x21 => .bang
  | 0x2b => .plus
  | 0x2d => .minus
  | 0x2a => .asterisk
  | 0x2f => .slash
  | 0x3c => .less
  | 0x3e => .greater
  | 0x3b => .semicolon
  | 0x2c => .comma
  | 0x28 => .lparen
  | 0x29 => .rparen
  | 0x7b => .lbrace
  | 0x7d => .rbrace
  | _ => .illegal

/-- A token as it is cut from a source: its kind, its bytes, and the bytes after it. -/
structure Lexeme where
  kind : Kind
  slice : Bytes
  rest : Bytes
  deriving DecidableEq, Repr

/-- The token that starts with the byte `b`, when the bytes `rest` come after it. -/
def lexeme (b : UInt8) (rest : Bytes) : Lexeme :=
  if isLetter b then
    let word := b :: rest.takeWhile isLetter
    ⟨wordKind word, word, rest.dropWhile isLetter⟩
  else if isDigit b then
    ⟨.int, b :: rest.takeWhile isDigit, rest.dropWhile isDigit⟩
  else match b, rest with
    | 0x3d, 0x3d :: rest => ⟨.equal, [0x3d, 0x3d], rest⟩
    | 0x21, 0x3d :: rest => ⟨.notEqual, [0x21, 0x3d], rest⟩
    | b, rest => ⟨byteKind b, [b], rest⟩

/-- The text that a token of the given kind keeps of its bytes. -/
def keptText : Kind → Bytes → Bytes
  | .illegal, slice => slice.flatMap fun b => String.utf8EncodeChar (Char.ofNat b.toNat)
  | _, slice => slice

/-- What is left to read of a source, and where that starts. -/
structure Cursor where
  rest : Bytes
  pos : Position
  deriving DecidableEq, Repr

namespace Cursor

def skipBlanks (c : Cursor) : Cursor :=
  ⟨c.rest.dropWhile isBlank, c.pos.after (c.rest.takeWhile isBlank)⟩

/-- The next token and what is left after it, or nothing where only blanks are left. -/
def next? (c : Cursor) : Option (Token × Cursor) :=
  match c.skipBlanks with
  | ⟨[], _⟩ => none
  | ⟨b :: rest, pos⟩ =>
    let lex := lexeme b rest
    some (⟨lex.kind, keptText lex.kind lex.slice, pos⟩, ⟨lex.rest, pos.after lex.slice⟩)

/-- The next token and what is left after it, also where the source has ended. -/
def next (c : Cursor) : Token × Cursor :=
  match c.next? with
  | some found => found
  | none =>
    let stop := c.skipBlanks.pos
    (⟨.eof, [], stop⟩, ⟨[], ⟨stop.line, stop.column + 1⟩⟩)

/-- Reads at most `fuel` tokens. Those read already are held newest first; the answer has all of
them in order, and the place where the source ends. -/
def scanOnto (done : List Token) : Nat → Cursor → List Token × Position
  | 0, c => (done.reverse, c.skipBlanks.pos)
  | fuel + 1, c =>
    match c.next? with
    | none => (done.reverse, c.skipBlanks.pos)
    | some (token, c) => scanOnto (token :: done) fuel c

end Cursor

/-- All tokens of a source, and the place where it ends. A token takes up at least one byte, so
there are no more of them than bytes. -/
def scan (source : Bytes) : List Token × Position :=
  Cursor.scanOnto [] source.length ⟨source, .start⟩

end Monkey.Token
