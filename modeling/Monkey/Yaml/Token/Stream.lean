import Monkey.Yaml.Scalar
import Monkey.Yaml.Source
import Monkey.Yaml.Token.Basic

/-!
# Streams of tokens

Tokens are read as they are needed. A text turns out to be a key only when the colon after it is
reached, and then the token that announces a key is put before it; so a stream reads on as long as
its next token may still be a key, and in any case two tokens further. What is wrong in the tokens
read in advance is noticed, and what comes after them is not looked at.
-/

namespace Monkey.Yaml

/-- A place where a key may have started. If the key is required, a colon has to follow. -/
structure Candidate where
  required : Bool
  index : Nat
  line : Nat
  column : Nat
  deriving DecidableEq, Repr

/-- The candidate inside of some brackets, and the number of its token. Before there is one, the
number is that of the bracket. -/
structure Level where
  number : Nat
  candidate : Option Candidate
  deriving DecidableEq, Repr

/-- A stream of tokens. -/
structure Stream where
  cursor : Cursor
  /-- How many characters the source has, which bounds every loop over them. -/
  size : Nat
  /-- Whether an unreadable piece follows. -/
  torn : Bool
  /-- The tokens read in advance. -/
  queue : List Token
  /-- How many tokens come before those. -/
  taken : Nat
  /-- The first column that is further in than the block at hand, zero outside of all blocks. -/
  margin : Nat
  /-- The margins of the blocks around it. -/
  margins : List Nat
  level : Level
  /-- The levels around the brackets at hand. -/
  levels : List Level
  /-- Whether a key may start here. -/
  keyAllowed : Bool
  /-- The candidates for which the stream reads on. -/
  awaited : List Nat
  deriving DecidableEq, Repr

/-- How far behind its start the colon after a key may be. -/
def Candidate.reach : Nat := 1024

/-- Whether what started at the candidate can still be a key at the cursor: it has to end in its
line. Nothing if it cannot, and has to be one. -/
def Candidate.holds? (p : Candidate) (c : Cursor) : Option Bool :=
  if p.line < c.line || p.index + reach < c.index then if p.required then none else some false
  else some true

namespace Stream

def ofSource (source : Source) : Stream where
  cursor := .start source.chars
  size := source.chars.length
  torn := source.torn
  queue := []
  taken := 0
  margin := 0
  margins := []
  level := ⟨0, none⟩
  levels := []
  keyAllowed := true
  awaited := []

/-- How deep blocks and brackets may be nested. -/
def depthLimit : Nat := 10000

/-- Whether the stream is between brackets. -/
def inFlow (s : Stream) : Bool := !s.levels.isEmpty

/-- The number of the next token that is read. -/
def nextNumber (s : Stream) : Nat := s.taken + s.queue.length

def push (s : Stream) (t : Token) : Stream := { s with queue := s.queue ++ [t] }

/-- Puts a token before the one with the given number, or at the end if that one is gone. -/
def insert (s : Stream) (number : Nat) (t : Token) : Stream :=
  if number < s.taken then s.push t
  else
    let position := number - s.taken
    { s with queue := s.queue.take position ++ t :: s.queue.drop position }

def skip (s : Stream) (n : Nat) : Stream := { s with cursor := s.cursor.advanceBy n }

/-- Gives up the candidate, which must not be required. -/
def dropKey? (s : Stream) : Option Stream :=
  match s.level.candidate with
  | none => some s
  | some p =>
    if p.required then none
    else some { s with
      level := { s.level with candidate := none }
      awaited := s.awaited.erase s.level.number }

/-- Makes the next token a candidate, where keys are allowed. -/
def saveKey? (s : Stream) : Option Stream :=
  if !s.keyAllowed then some s
  else do
    let c := s.cursor
    let required := !s.inFlow && s.margin = c.column + 1
    let s ← s.dropKey?
    pure { s with
      level := ⟨s.nextNumber, some ⟨required, c.index, c.line, c.column⟩⟩
      awaited := s.nextNumber :: s.awaited }

/-- Starts a block at the given column, if it is further in than the block at hand. -/
def indent? (s : Stream) (column number : Nat) (t : Token) : Option Stream :=
  if s.inFlow || column < s.margin then some s
  else do
    guard (s.margins.length < depthLimit)
    pure { s.insert number t with margin := column + 1, margins := s.margin :: s.margins }

/-- Ends the blocks whose margin is beyond the given one. -/
def dedent (s : Stream) (margin : Nat) : Stream :=
  if s.inFlow then s else go s.margins s
where
  go : List Nat → Stream → Stream
    | [], s => s
    | outer :: rest, s =>
      if margin < s.margin then go rest { s.push .blockEnd with margin := outer, margins := rest }
      else s

/-- Skips blanks, comments and line breaks. Tabs are no blanks where a key may start. -/
def toToken : Nat → Stream → Stream
  | 0, s => s
  | fuel + 1, s =>
    let c := s.cursor
    let c := if c.column = 0 && (c.rest.head?.map Char.toNat) = some 0xfeff then c.advance else c
    let c := c.skipWhile fun x => x = ' ' || (x = '\t' && (s.inFlow || !s.keyAllowed))
    let c := if c.rest.head? = some '#' then c.skipComments (s.size + 1) else c
    if !c.rest.isEmpty && atLineEnd c.rest then
      toToken fuel { s with cursor := c.advance, keyAllowed := s.keyAllowed || !s.inFlow }
    else { s with cursor := c }

/-- Ends all blocks before a token that divides documents. -/
def divide? (s : Stream) : Option Stream := do
  let s ← (s.dedent 0).dropKey?
  pure { s with keyAllowed := false }

/-- The end of the source counts as the start of a line. -/
def fetchEnd? (s : Stream) : Option Stream := do
  let c := s.cursor
  let c := if c.column = 0 then c else { c with column := 0, line := c.line + 1 }
  let s ← divide? { s with cursor := c }
  pure (s.push .sourceEnd)

def fetchDirective? (s : Stream) : Option Stream := do
  let s ← s.divide?
  let (directive, c) ← directive? s.cursor.advance
  pure { s.push (.directive directive) with cursor := c }

def fetchMarker? (s : Stream) (t : Token) : Option Stream := do
  let s ← s.divide?
  pure ((s.push t).skip 3)

def fetchOpen? (s : Stream) (t : Token) : Option Stream := do
  let s ← s.saveKey?
  guard (s.levels.length < depthLimit)
  pure ({ s.push t with
    level := ⟨s.nextNumber, none⟩
    levels := s.level :: s.levels
    keyAllowed := true }.skip 1)

def fetchClose? (s : Stream) (t : Token) : Option Stream := do
  let s ← s.dropKey?
  let s := match s.levels with
    | [] => s
    | outer :: rest =>
      { s with level := outer, levels := rest, awaited := s.awaited.erase s.level.number }
  pure ({ s.push t with keyAllowed := false }.skip 1)

def fetchComma? (s : Stream) : Option Stream := do
  let s ← s.dropKey?
  pure ({ s.push .comma with keyAllowed := true }.skip 1)

def fetchDash? (s : Stream) : Option Stream := do
  guard (s.inFlow || s.keyAllowed)
  let s ← s.indent? s.cursor.column s.nextNumber .sequenceStart
  let s ← s.dropKey?
  pure ({ s.push .dash with keyAllowed := true }.skip 1)

def fetchKey? (s : Stream) : Option Stream := do
  guard (s.inFlow || s.keyAllowed)
  let s ← s.indent? s.cursor.column s.nextNumber .mappingStart
  let s ← s.dropKey?
  pure ({ s.push .key with keyAllowed := !s.inFlow }.skip 1)

/-- The colon after a key. If the key was announced by a sign of its own, there is no candidate. -/
def fetchValue? (s : Stream) : Option Stream := do
  let found ← match s.level.candidate with
    | none => some none
    | some p => (p.holds? s.cursor).map fun holds => if holds then some p else none
  let number := s.level.number
  let level := { s.level with candidate := none }
  let s ← match found with
    | some p => do
      let s ← (s.insert number .key).indent? p.column number .mappingStart
      pure { s with level := level, awaited := s.awaited.erase number, keyAllowed := false }
    | none => do
      guard (s.inFlow || s.keyAllowed)
      let s ← s.indent? s.cursor.column s.nextNumber .mappingStart
      pure { s with level := level, keyAllowed := !s.inFlow }
  pure ((s.push .value).skip 1)

def fetchAnchor? (s : Stream) (token : List Char → Token) : Option Stream := do
  let s ← s.saveKey?
  let (name, c) ← anchorName? s.cursor.advance
  pure { s.push (token name) with cursor := c, keyAllowed := false }

def fetchTag? (s : Stream) : Option Stream := do
  let s ← s.saveKey?
  let (handle, rest, c) ← tag? s.cursor
  pure { s.push (.tag handle rest) with cursor := c, keyAllowed := false }

def fetchBlock? (s : Stream) (folded : Bool) : Option Stream := do
  let s ← s.dropKey?
  let (text, c) ← blockText? folded s.margin s.size s.cursor.advance
  pure { s.push (.scalar false text) with cursor := c, keyAllowed := true }

def fetchQuoted? (s : Stream) (quote : Char) : Option Stream := do
  let s ← s.saveKey?
  let (text, c) ← quotedText? quote (s.size + 1) [] s.cursor.advance
  pure { s.push (.scalar false text) with cursor := c, keyAllowed := false }

def fetchPlain? (s : Stream) : Option Stream := do
  let s ← s.saveKey?
  let (text, broken, c) ← plainText? s.inFlow s.margin (s.size + 1) .none [] s.cursor
  pure { s.push (.scalar true text) with cursor := c, keyAllowed := broken }

/-- The characters that start something else than a plain text, unless more follows them. -/
def isMark (c : Char) : Bool := "-?:,[]\x7b\x7d#&*!|>'\"%@".toList.contains c || c.toNat = 0x60

/-- Whether a plain text may start this way. -/
def startsPlain (s : Stream) (c : Char) (rest : List Char) : Bool :=
  !(isBlank c || isMark c) || (c = '-' && !rest.head?.any isBlank) ||
    (!s.inFlow && (c = '?' || c = ':') && !atGap rest)

/-- The token at the character `c`, behind which `rest` follows. -/
def fetchContent? (s : Stream) (c : Char) (rest : List Char) : Option Stream :=
  let alone := atGap rest
  if c = '[' then s.fetchOpen? .bracketOpen
  else if c = '\x7b' then s.fetchOpen? .braceOpen
  else if c = ']' then s.fetchClose? .bracketClose
  else if c = '\x7d' then s.fetchClose? .braceClose
  else if c = ',' then s.fetchComma?
  else if c = '-' && alone then s.fetchDash?
  else if c = '?' && (s.inFlow || alone) then s.fetchKey?
  else if c = ':' && (s.inFlow || alone) then s.fetchValue?
  else if c = '*' then s.fetchAnchor? .reference
  else if c = '&' then s.fetchAnchor? .anchor
  else if c = '!' then s.fetchTag?
  else if c = '|' && !s.inFlow then s.fetchBlock? false
  else if c = '>' && !s.inFlow then s.fetchBlock? true
  else if c = '\'' || c = '"' then s.fetchQuoted? c
  else if s.startsPlain c rest then s.fetchPlain?
  else none

/-- Skips the comment in the line of the token read last. After a dash it belongs to what
follows. -/
def skipTrailingComment (s : Stream) : Stream :=
  if s.queue.getLast? = some .dash then s
  else { s with cursor := s.cursor.skipTrailingComment }

/-- Reads the next token, and what has to be put before it. -/
def fetch? (s : Stream) : Option Stream := do
  let s := s.toToken (s.size + 1)
  let s := s.dedent (s.cursor.column + 1)
  let c := s.cursor
  guard (!(s.torn && (c.rest.drop 3).isEmpty))
  let s ← match c.rest with
    | [] => s.fetchEnd?
    | x :: rest =>
      if c.column = 0 && x = '%' then s.fetchDirective?
      else if c.atWord "---" then s.fetchMarker? .documentStart
      else if c.atWord "..." then s.fetchMarker? .documentEnd
      else (s.fetchContent? x rest).map skipTrailingComment
  guard (!(s.torn && s.cursor.rest.isEmpty))
  pure s

/-- Whether the next token may still become a key. -/
def awaitsKey? (s : Stream) : Option Bool :=
  if !s.awaited.contains s.taken then some false
  else match (s.level :: s.levels).find? fun l => l.number = s.taken && l.candidate.isSome with
    | some ⟨_, some p⟩ => p.holds? s.cursor
    | _ => some false

/-- How many tokens are read beyond the next one. -/
def lookahead : Nat := 2

/-- Reads as far as the next token needs it. -/
def fill? : Nat → Stream → Option Stream
  | 0, _ => none
  | fuel + 1, s => do
    let ready ← if s.queue.length ≤ lookahead then some false else s.awaitsKey?.map not
    if ready then pure s else fill? fuel (← s.fetch?)

/-- The next token, and the stream with that token still in it. -/
def peek? (s : Stream) : Option (Token × Stream) := do
  let s ← s.fill? (s.size + lookahead + 3)
  let t ← s.queue.head?
  pure (t, s)

/-- The stream without its next token. -/
def next (s : Stream) : Stream := { s with queue := s.queue.drop 1, taken := s.taken + 1 }

end Stream

end Monkey.Yaml
