import Monkey.Bytes
import Monkey.Text.Digits
import Monkey.Yaml.Cursor

/-!
# Labels

Names of anchors, tags, and the directives before a document. A tag is a handle with a rest, and the
handle stands for a text that a directive gives; a tag in angle brackets has no handle.
-/

namespace Monkey.Yaml

open Text (hexValue?)

/-- The name of an anchor, read from after its sign. -/
def anchorName? (c : Cursor) : Option (List Char × Cursor) := do
  let name := c.rest.takeWhile isNameChar
  let c := c.skipWhile isNameChar
  guard (!name.isEmpty && (atGap c.rest || c.rest.head?.any ends))
  pure (name, c)
where
  ends (c : Char) : Bool := "?:,]\x7d%@".toList.contains c || c.toNat = 0x60

/-- The byte that a percent sign with two hexadecimal digits stands for. -/
def octet? : List Char → Option UInt8
  | '%' :: c :: d :: _ => do
    let high ← hexValue? c
    let low ← hexValue? d
    pure (UInt8.ofNat (high * 16 + low))
  | _ => none

/-- How many bytes a character has that starts with the given one. -/
def charSize? (b : UInt8) : Option Nat :=
  if b < 0x80 then some 1
  else if 0xc0 ≤ b && b ≤ 0xdf then some 2
  else if 0xe0 ≤ b && b ≤ 0xef then some 3
  else if 0xf0 ≤ b && b ≤ 0xf7 then some 4
  else none

/-- The `n` further bytes of a character, behind `done`. -/
def furtherOctets? : Nat → Bytes → Cursor → Option (Bytes × Cursor)
  | 0, done, c => some (done, c)
  | n + 1, done, c => do
    let b ← octet? c.rest
    guard (0x80 ≤ b && b ≤ 0xbf)
    furtherOctets? n (b :: done) (c.advanceBy 3)

def isTagChar (c : Char) : Bool := isNameChar c || ";/?:@&=+$,.!~*'()[]%".toList.contains c

/-- The text of a tag behind `done`, which is held newest first. -/
def tagText? : Nat → Bytes → Cursor → Option (Bytes × Cursor)
  | 0, _, _ => none
  | fuel + 1, done, c =>
    match c.rest with
    | [] => some (done, c)
    | x :: _ =>
      if !isTagChar x then some (done, c)
      else if x = '%' then do
        let b ← octet? c.rest
        let size ← charSize? b
        let (done, c) ← furtherOctets? (size - 1) (b :: done) (c.advanceBy 3)
        tagText? fuel done c
      else tagText? fuel ((String.utf8EncodeChar x).reverse ++ done) c.advance

/-- A text of a tag that is not empty. -/
def someTagText? (c : Cursor) : Option (Bytes × Cursor) := do
  let (text, c) ← tagText? (c.rest.length + 1) [] c
  guard (!text.isEmpty)
  pure (text.reverse, c)

/-- A handle, which starts with an exclamation mark and perhaps ends with another one. -/
def tagHandle? (c : Cursor) : Option (List Char × Cursor) :=
  match c.rest with
  | '!' :: rest =>
    let name := rest.takeWhile isNameChar
    let c := c.advanceBy (name.length + 1)
    if c.rest.head? = some '!' then some ('!' :: name ++ ['!'], c.advance)
    else some ('!' :: name, c)
  | _ => none

def isWholeHandle (handle : List Char) : Bool := 1 < handle.length && handle.getLast? = some '!'

/-- A tag as its handle and the rest. The exclamation mark alone is a tag without a handle. -/
def tag? (c : Cursor) : Option (List Char × Bytes × Cursor) := do
  let (handle, rest, c) ←
    if c.rest.drop 1 |>.head? |> (· = some '<') then do
      let (text, c) ← someTagText? (c.advanceBy 2)
      guard (c.rest.head? = some '>')
      pure ([], text, c.advance)
    else do
      let (handle, c) ← tagHandle? c
      if isWholeHandle handle then
        let (text, c) ← someTagText? c
        pure (handle, text, c)
      else
        let (text, c) ← tagText? (c.rest.length + 1) [] c
        let text := utf8 (String.ofList (handle.drop 1)) ++ text.reverse
        pure (if text.isEmpty then ([], utf8 "!", c) else (['!'], text, c))
  guard (atGap c.rest)
  pure (handle, rest, c)

inductive Directive where
  | version (major minor : Nat)
  | handle (name : List Char) (meaning : Bytes)
  deriving DecidableEq, Repr

/-- One or two digits. -/
def versionNumber? (c : Cursor) : Option (Nat × Cursor) := do
  let digits := c.rest.takeWhile Char.isDigit
  guard (digits.length ≤ 2)
  let n ← Text.digitsIn? 10 digits
  pure (n, c.advanceBy digits.length)

def versionDirective? (c : Cursor) : Option (Directive × Cursor) := do
  let (major, c) ← versionNumber? c.skipBlanks
  guard (c.rest.head? = some '.')
  let (minor, c) ← versionNumber? c.advance
  pure (.version major minor, c)

def handleDirective? (c : Cursor) : Option (Directive × Cursor) := do
  let (name, c) ← tagHandle? c.skipBlanks
  guard (name = ['!'] || isWholeHandle name)
  guard (c.rest.head?.any isBlank)
  let (meaning, c) ← someTagText? c.skipBlanks
  guard (atGap c.rest)
  pure (.handle name meaning, c)

/-- A directive, read from after the percent sign to the end of its line. -/
def directive? (c : Cursor) : Option (Directive × Cursor) := do
  let name := c.rest.takeWhile isNameChar
  let c := c.advanceBy name.length
  guard (atGap c.rest)
  let (directive, c) ←
    if name = "YAML".toList then versionDirective? c
    else if name = "TAG".toList then handleDirective? c
    else none
  let c := c.skipBlanks
  let c := if c.rest.head? = some '#' then c.skipLine else c
  guard (atLineEnd c.rest)
  pure (directive, c.advance)

end Monkey.Yaml
