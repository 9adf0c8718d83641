import Monkey.Session.Basic
import Monkey.Session.Lines

/-!
# Consoles

A console reads the input of a session line by line. Before each line it shows a prompt, which
tells a new input from one that goes on. A complete input is handed to the session, and the
transcript keeps what was shown.

`Console.batch` goes through the lines of an input to its end. There, an unfinished input is still
handed to the session.
-/

namespace Monkey.Session

/-- What a console shows: a prompt, the answer to an input, or the end of a line. -/
inductive Event where
  | prompt (text : Bytes)
  | reply (input output : Bytes)
  | newline
  deriving DecidableEq, Repr

def Event.output : Event → Bytes
  | prompt text => text
  | reply _ output => output
  | newline => utf8 "\n"

structure Console where
  session : Session
  /-- The lines of an input that is not complete yet. -/
  pending : List Bytes
  /-- What was shown, newest first. -/
  transcript : List Event

namespace Console

def ofSession (s : Session) : Console := ⟨s, [], []⟩

def continuation : Bytes := utf8 ".. "

def display (c : Console) (e : Event) : Console := { c with transcript := e :: c.transcript }

/-- Shows a prompt. -/
def ask (c : Console) : Console :=
  c.display (.prompt (if c.pending.isEmpty then c.session.prompt else continuation))

/-- Takes up a line. If that completes an input, the input is given out. -/
def accept (c : Console) (line : Bytes) : Console × Option Bytes :=
  let lines := c.pending ++ [line]
  let text := inputText lines
  if isComplete text then ({ c with pending := [] }, some text)
  else ({ c with pending := lines }, none)

/-- Hands an input to the session, and says whether the session ends there. -/
def submit (c : Console) (text : Bytes) : Option (Console × Bool) :=
  match c.session.handle text with
  | some reply => some ({ c with session := reply.session }.display (.reply text reply.output), reply.quits)
  | none => none

/-- The input at the end of the lines: what is unfinished is handed to the session. -/
def finish (c : Console) : Option Console :=
  if c.pending.isEmpty then some c
  else match { c with pending := [] }.submit (inputText c.pending) with
    | some (c, _) => some c
    | none => none

/-- Goes through lines until the session ends. -/
def batch (c : Console) : List Bytes → Option (Console × Bool)
  | [] => some (c, false)
  | line :: rest =>
    match c.ask.accept line with
    | (c, none) => batch c rest
    | (c, some text) =>
      if text.isEmpty then batch c rest
      else match c.submit text with
        | none => none
        | some (c, true) => some (c, true)
        | some (c, false) => batch c rest

/-- Everything that was shown. -/
def output (c : Console) : Bytes := (c.transcript.reverse.map Event.output).flatten

end Console

/-- A session over a whole input. -/
structure Run where
  console : Console
  /-- Whether a line was too long. -/
  overlong : Bool

def overlongText : Bytes := utf8 "bufio.Scanner: token too long"

/-- Runs a session over an input; `none` if an evaluation was cut off. -/
def run (s : Session) (input : Bytes) : Option Run :=
  let read := Lines.ofInput input
  match (Console.ofSession s).batch read.lines with
  | none => none
  | some (c, true) => some ⟨c, false⟩
  | some (c, false) =>
    if read.overlong then some ⟨c.ask, true⟩
    else (c.ask.finish).map fun c => ⟨c, false⟩

end Monkey.Session
