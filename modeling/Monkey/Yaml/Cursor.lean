/-!
# Cursors in a document

A cursor stands before a character of a document and knows its place. Lines end with a carriage
return, a line feed, both, or one of three further characters. In the text of a value the first
three and the next-line character count as a line feed, and the line and paragraph separators stay
what they are.
-/

namespace Monkey.Yaml

def isBlank (c : Char) : Bool := c = ' ' || c = '\t'

def isBreak (c : Char) : Bool :=
  c = '\n' || c = '\r' || c.toNat = 0x85 || c.toNat = 0x2028 || c.toNat = 0x2029

/-- The characters of names: letters, digits, the underscore and the hyphen. -/
def isNameChar (c : Char) : Bool := c.isAlphanum || c = '_' || c = '-'

/-- What a line break is in the text of a value. -/
def breakText (c : Char) : Char := if c = '\r' || c.toNat = 0x85 then '\n' else c

/-- Whether a line or the document ends here. -/
def atLineEnd : List Char → Bool
  | [] => true
  | c :: _ => isBreak c

/-- Whether a word ends here. -/
def atGap : List Char → Bool
  | [] => true
  | c :: _ => isBlank c || isBreak c

structure Cursor where
  rest : List Char
  /-- How many characters come before. -/
  index : Nat
  line : Nat
  column : Nat
  /-- How many line breaks there are since the last character that is no blank. -/
  newlines : Nat
  deriving DecidableEq, Repr

namespace Cursor

def start (cs : List Char) : Cursor := ⟨cs, 0, 0, 0, 0⟩

/-- The cursor behind the next character. A carriage return with a line feed is one line break. -/
def advance (c : Cursor) : Cursor :=
  match c.rest with
  | [] => c
  | '\r' :: '\n' :: rest => ⟨rest, c.index + 2, c.line + 1, 0, c.newlines + 1⟩
  | x :: rest =>
    if isBreak x then ⟨rest, c.index + 1, c.line + 1, 0, c.newlines + 1⟩
    else ⟨rest, c.index + 1, c.line, c.column + 1, if isBlank x then c.newlines else 0⟩

def advanceBy (c : Cursor) : Nat → Cursor
  | 0 => c
  | n + 1 => c.advance.advanceBy n

/-- The cursor behind the characters that satisfy `p`, none of which is a line break. -/
def skipWhile (p : Char → Bool) (c : Cursor) : Cursor := c.advanceBy (c.rest.takeWhile p).length

def skipBlanks (c : Cursor) : Cursor := c.skipWhile isBlank

/-- The cursor at the end of the line. -/
def skipLine (c : Cursor) : Cursor := c.skipWhile fun x => !isBreak x

/-- Whether `text` stands here as a line's first word. -/
def atWord (text : String) (c : Cursor) : Bool :=
  c.column = 0 && c.rest.take 3 = text.toList && atGap (c.rest.drop 3)

/-- Whether there is a mark here that divides documents. -/
def atMarker (c : Cursor) : Bool := c.atWord "---" || c.atWord "..."

/-- How far is looked ahead for a comment. -/
def commentReach : Nat := 512

/-- The cursor before the character that has so many before it. -/
def advanceTo (index : Nat) (c : Cursor) : Cursor :=
  Nat.repeat (fun c => if c.index < index then c.advance else c) (index - c.index) c

/-- The next comment, seen from the end of a line, if there are only blank lines before it. -/
def nextComment? (c : Cursor) : Option Cursor :=
  let isFeed (x : Char) : Bool := x = '\n' || x = '\r'
  let gap := c.rest.takeWhile fun x => isBlank x || isFeed x
  if c.rest.head?.any isFeed && gap.length < commentReach &&
      (c.rest.drop gap.length).head? = some '#' then some (c.advanceTo (c.index + gap.length))
  else none

/-- The cursor behind the comment that starts here and those that follow it in lines of their
own. -/
def skipComments : Nat → Cursor → Cursor
  | 0, c => c
  | fuel + 1, c =>
    let c := c.skipLine
    match c.nextComment? with
    | some next => skipComments fuel next
    | none => c

/-- The cursor behind a comment that ends the line at hand, if there is one. -/
def skipTrailingComment (c : Cursor) : Cursor :=
  let blanks := c.rest.takeWhile isBlank
  if c.newlines = 0 && blanks.length < commentReach &&
      (c.rest.drop blanks.length).head? = some '#' then c.skipLine
  else c

end Cursor

end Monkey.Yaml
