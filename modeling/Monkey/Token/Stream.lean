import Monkey.Token.Scan

/-!
# Streams of tokens

A stream is a list of tokens that never runs dry: after the last one it yields the end token, for
ever. `stop` is the place of the next end token, and `onward` leads from the place of an end token
that has been taken to that of the one after it: where the cursor goes in a source that is being
read, and nowhere else in a list of tokens made by hand.
-/

namespace Monkey.Token

structure Stream where
  items : List Token
  stop : Position
  onward : Position → Position

namespace Stream

/-- The tokens of a source, after which the cursor reads on at its end. -/
def ofSource (source : Bytes) : Stream :=
  let (items, stop) := scan source
  ⟨items, stop, fun pos => (Cursor.next ⟨[], pos⟩).2.pos⟩

/-- A list of kinds and texts, the tokens of which stand side by side in one line. -/
def ofList (entries : List (Kind × Bytes)) : Stream :=
  ⟨entries.mapIdx fun i (kind, literal) => ⟨kind, literal, ⟨1, i + 1⟩⟩,
   ⟨1, entries.length + 1⟩, id⟩

def endToken (s : Stream) : Token := ⟨.eof, [], s.stop⟩

/-- The place of the end token after the next one. -/
def pastStop (s : Stream) : Position := s.onward s.stop

/-- The first token. -/
def current (s : Stream) : Token :=
  match s.items with
  | token :: _ => token
  | [] => s.endToken

/-- The stream without its first token. -/
def advance (s : Stream) : Stream :=
  match s.items with
  | _ :: items => { s with items }
  | [] => { s with stop := s.pastStop }

/-- The second token. -/
def peek (s : Stream) : Token := s.advance.current

/-- The first `n` tokens, and the stream after them. -/
def take : Nat → Stream → List Token × Stream
  | 0, s => ([], s)
  | n + 1, s =>
    let (tokens, rest) := take n s.advance
    (s.current :: tokens, rest)

/-- The tokens up to the end, the end token included, and the stream after it. -/
def drain (s : Stream) : List Token × Stream :=
  (s.items ++ [s.endToken], { s with items := [], stop := s.pastStop })

end Stream

/-- All tokens of a source, the end token included. -/
def tokens (source : Bytes) : List Token := (Stream.ofSource source).drain.1

end Monkey.Token
