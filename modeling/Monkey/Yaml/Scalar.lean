import Monkey.Text.Digits
import Monkey.Yaml.Cursor

/-!
# The text of a scalar

A scalar is plain, stands between quotes, or is a block of lines behind a header. Lines of the first
two are folded: one line break between words is a space, and of several the first does not count.
Each reader takes the cursor at the scalar and gives its text and the cursor behind it. The bound of
a reader is never reached if it is larger than the number of characters that are left.
-/

namespace Monkey.Yaml

open Text (digitsIn?)

/-- What stands between two words of a scalar: blanks, or line breaks with the blanks around them
left out. Texts are held newest first. -/
structure Gap where
  broken : Bool
  blanks : List Char
  first : Option Char
  further : List Char

namespace Gap

def none : Gap := ⟨false, [], .none, []⟩

/-- The gap that starts with a line break which is left out of the text. -/
def skipped : Gap := ⟨true, [], .none, []⟩

def addBlank (g : Gap) (c : Char) : Gap :=
  if g.broken then g else { g with blanks := c :: g.blanks }

def addBreak (g : Gap) (c : Char) : Gap :=
  if g.broken then { g with further := breakText c :: g.further }
  else { g with broken := true, blanks := [], first := some (breakText c) }

/-- Puts the text that the gap stands for behind `done`. -/
def onto (g : Gap) (done : List Char) : List Char :=
  if !g.broken then g.blanks ++ done
  else match g.first with
    | .none => g.further ++ done
    | some '\n' => if g.further.isEmpty then ' ' :: done else g.further ++ done
    | some c => g.further ++ c :: done

/-- Reads on in a gap. After a line break no tab may stand left of the column `margin`. -/
def read? (margin : Nat) : Nat → Gap → Cursor → Option (Gap × Cursor)
  | 0, _, _ => .none
  | fuel + 1, g, c =>
    match c.rest with
    | [] => some (g, c)
    | x :: _ =>
      if isBlank x then
        if g.broken && x = '\t' && c.column < margin then .none
        else read? margin fuel (g.addBlank x) c.advance
      else if isBreak x then read? margin fuel (g.addBreak x) c.advance
      else some (g, c)

end Gap

/-- The characters that cannot be in a plain text between brackets. -/
def isFlowMark (c : Char) : Bool := ",?[]\x7b\x7d".toList.contains c

/-- A word of a plain text behind `done`. It ends before a colon that ends a word itself. -/
def plainWord (flow : Bool) (done : List Char) (c : Cursor) : List Char → List Char × Cursor
  | [] => (done, c)
  | x :: rest =>
    if isBlank x || isBreak x || (x = ':' && atGap rest) || (flow && isFlowMark x) then (done, c)
    else plainWord flow (x :: done) c.advance rest

/-- A plain text, whether it ends with a line break, and the cursor behind it. Outside of brackets
it goes on in the next line only from the column `margin` on. -/
def plainText? (flow : Bool) (margin : Nat) :
    Nat → Gap → List Char → Cursor → Option (List Char × Bool × Cursor)
  | 0, _, _, _ => none
  | fuel + 1, gap, done, c =>
    if c.atMarker || c.rest.head? = some '#' then some (done.reverse, gap.broken, c)
    else
      let word := plainWord flow [] c c.rest
      if word.1.isEmpty then some (done.reverse, gap.broken, c)
      else do
        let done := word.1 ++ gap.onto done
        let (gap, c) ← Gap.read? margin (fuel + 1) .none word.2
        if c.index = word.2.index || (!flow && c.column < margin) then
          pure (done.reverse, gap.broken, c)
        else plainText? flow margin fuel gap done c

/-- The character that a letter after a backslash stands for. -/
def letter? : Char → Option Nat
  | '0' => some 0x00
  | 'a' => some 0x07
  | 'b' => some 0x08
  | 't' => some 0x09
  | '\t' => some 0x09
  | 'n' => some 0x0a
  | 'v' => some 0x0b
  | 'f' => some 0x0c
  | 'r' => some 0x0d
  | 'e' => some 0x1b
  | ' ' => some 0x20
  | '"' => some 0x22
  | '\'' => some 0x27
  | '\\' => some 0x5c
  | 'N' => some 0x85
  | '_' => some 0xa0
  | 'L' => some 0x2028
  | 'P' => some 0x2029
  | _ => none

/-- How many hexadecimal digits follow a letter after a backslash. -/
def digitCount? : Char → Option Nat
  | 'x' => some 2
  | 'u' => some 4
  | 'U' => some 8
  | _ => none

/-- The character that the text after a backslash stands for, and the length of that text. -/
def escape? : List Char → Option (Char × Nat)
  | [] => none
  | c :: rest =>
    match letter? c with
    | some n => some (Char.ofNat n, 1)
    | none => do
      let count ← digitCount? c
      let digits := rest.take count
      let n ← digitsIn? 16 digits
      guard (digits.length = count && decide n.isValidChar)
      pure (Char.ofNat n, count + 1)

/-- A word of a text between the given quotes behind `done`, and the gap that it is followed by as
far as it is known: a line break after a backslash starts one. -/
def quotedWord? (quote : Char) : Nat → List Char → Cursor → Option (List Char × Gap × Cursor)
  | 0, _, _ => none
  | fuel + 1, done, c =>
    match c.rest with
    | [] => some (done, .none, c)
    | x :: rest =>
      if isBlank x || isBreak x then some (done, .none, c)
      else if x = quote then
        if quote = '\'' && rest.head? = some quote then
          quotedWord? quote fuel (x :: done) (c.advanceBy 2)
        else some (done, .none, c)
      else if quote = '"' && x = '\\' then
        if !rest.isEmpty && atLineEnd rest then some (done, .skipped, c.advanceBy 2)
        else do
          let (char, length) ← escape? rest
          quotedWord? quote fuel (char :: done) (c.advanceBy (length + 1))
      else quotedWord? quote fuel (x :: done) c.advance

/-- A text between quotes, read from after the first one, and the cursor behind the last one. -/
def quotedText? (quote : Char) : Nat → List Char → Cursor → Option (List Char × Cursor)
  | 0, _, _ => none
  | fuel + 1, done, c => do
    guard (!c.atMarker && !c.rest.isEmpty)
    let (done, gap, c) ← quotedWord? quote (fuel + 1) done c
    if c.rest.head? = some quote then pure (done.reverse, c.advance)
    else
      let (gap, c) ← Gap.read? 0 (fuel + 1) gap c
      quotedText? quote fuel (gap.onto done) c

/-- What becomes of the line breaks at the end of a block. -/
inductive Chomp where
  | strip
  | clip
  | keep
  deriving DecidableEq, Repr

def chomp? : List Char → Option Chomp
  | '+' :: _ => some .keep
  | '-' :: _ => some .strip
  | _ => none

/-- The indentation that the header of a block gives. It is not zero. -/
def indentation? (cs : List Char) : Option (Option Nat) :=
  match cs with
  | [] => some none
  | c :: _ =>
    if c.isDigit then if c = '0' then none else some (some (c.toNat - '0'.toNat)) else some none

/-- The header of a block after its first character: two signs in any order, both optional, and
perhaps a comment. -/
def blockHeader? (c : Cursor) : Option (Chomp × Option Nat × Cursor) := do
  let before := chomp? c.rest
  let c := if before.isSome then c.advance else c
  let indentation ← indentation? c.rest
  let c := if indentation.isSome then c.advance else c
  let after := if before.isNone && indentation.isSome then chomp? c.rest else none
  let c := (if after.isSome then c.advance else c).skipBlanks
  let c := if c.rest.head? = some '#' then c.skipLine else c
  guard (atLineEnd c.rest)
  pure (((before.or after).getD .clip), indentation, c.advance)

/-- Skips the empty lines of a block and the indentation of the line after them, which is at most
`indent` if that is known. Gives the line breaks behind `breaks`, newest first, and the largest
column that was reached. -/
def blockGap? (indent : Option Nat) :
    Nat → Nat → List Char → Cursor → Option (Nat × List Char × Cursor)
  | 0, _, _, _ => none
  | fuel + 1, reached, breaks, c =>
    let spaces := (c.rest.takeWhile (· = ' ')).length
    let c := c.advanceBy (match indent with
      | some indent => min spaces (indent - c.column)
      | none => spaces)
    let reached := max reached c.column
    let inside := match indent with
      | some indent => decide (c.column < indent)
      | none => true
    match c.rest with
    | [] => some (reached, breaks, c)
    | x :: _ =>
      if inside && x = '\t' then none
      else if isBreak x then blockGap? indent fuel reached (breakText x :: breaks) c.advance
      else some (reached, breaks, c)

/-- Puts the line breaks between two lines of a block behind `done`. In a folded block a single one
becomes a space, unless one of the two lines starts with a blank. -/
def joinLines (fold : Bool) (first : Option Char) (further done : List Char) : List Char :=
  if fold && first = some '\n' then
    if further.isEmpty then ' ' :: done else further ++ done
  else further ++ first.toList ++ done

/-- The lines of a block from the one at hand on, the first line break after them and the further
ones. -/
def blockLines? (folded : Bool) (indent : Nat) :
    Nat → Bool → Option Char → List Char → List Char → Cursor →
      Option (List Char × Option Char × List Char × Cursor)
  | 0, _, _, _, _, _ => none
  | fuel + 1, afterBlank, first, further, done, c =>
    if c.column != indent || c.rest.isEmpty then some (done, first, further, c)
    else do
      let startsBlank := c.rest.head?.any isBlank
      let done := joinLines (folded && !afterBlank && !startsBlank) first further done
      let line := c.rest.takeWhile fun x => !isBreak x
      let c := c.skipLine
      let first := c.rest.head?.map breakText
      let c := c.advance
      let (_, further, c) ← blockGap? (some indent) (fuel + 1) 0 [] c
      blockLines? folded indent fuel startsBlank first further (line.reverse ++ done) c

/-- The text of a block, read from after its first character, and the cursor behind it. Without an
indentation in the header, the first line that is not empty decides. The document has at most
`size` characters. -/
def blockText? (folded : Bool) (margin size : Nat) (c : Cursor) :
    Option (List Char × Cursor) := do
  let (chomp, indentation, c) ← blockHeader? c
  let given := indentation.map fun n => margin - 1 + n
  let (reached, breaks, c) ← blockGap? given (size + 1) 0 [] c
  let indent := given.getD (max reached (max margin 1))
  let (done, first, further, c) ←
    blockLines? folded indent (size + 1) false none breaks [] c
  let done := if chomp = .strip then done else first.toList ++ done
  let done := if chomp = .keep then further ++ done else done
  pure (done.reverse, c)

end Monkey.Yaml
