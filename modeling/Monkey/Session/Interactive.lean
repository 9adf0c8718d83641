import Monkey.Session.Console
import Monkey.Session.History
import Monkey.Text.Invisible

/-!
# Interactive sessions

An interactive session keeps a history. It is read at the start and saved at the end, however the
session ends; that one of the two fails is noted in the journal and stops nothing. At the end of
the input an unfinished input is dropped.

A prompt that holds an invisible character is refused.
-/

namespace Monkey.Session

structure Interactive where
  console : Console
  history : History

namespace Interactive

open Journal (Record)

def refusedPrompt : Bytes := utf8 "invalid prompt"

def isRefused (prompt : Bytes) : Bool :=
  (Text.Rune.decode prompt).any fun
    | .char c => Text.isInvisible c
    | .stray _ => false

def readFailed (path : Bytes) (fault : History.Fault) : Record :=
  ⟨.warn, .session, utf8 "Failed to read history",
    [("file", .text path), ("err", .text fault.message)]⟩

def saveFailed (path message : Bytes) : Record :=
  ⟨.warn, .session, utf8 "Failed to save history", [("file", .text path), ("err", .text message)]⟩

/-- Takes up a line, and says whether the session ends there. An input that is blank is passed
over. -/
def accept (s : Interactive) (line : Bytes) : Option (Interactive × Bool) :=
  match s.console.accept line with
  | (c, none) => some ({ s with console := c }, false)
  | (c, some text) =>
    if isBlankText text then some ({ s with console := c }, false)
    else match c.submit text with
      | none => none
      | some (c, quits) => some (⟨c, s.history.append (History.entryOf text)⟩, quits)

/-- Goes through lines to the end of the session. At the end of the lines a line is ended. -/
def play (s : Interactive) : List Bytes → Option Interactive
  | [] => some { s with console := s.console.ask.display .newline }
  | line :: rest =>
    match { s with console := s.console.ask }.accept line with
    | none => none
    | some (s, true) => some s
    | some (s, false) => play s rest

/-- The session at its start, with the history of a file, if there is one. -/
def start (s : Session) (find : Files.Finder) (path : Bytes) : Interactive :=
  if path.isEmpty then ⟨.ofSession s, []⟩
  else match History.load find path with
    | (history, none) => ⟨.ofSession s, history⟩
    | (history, some fault) =>
      ⟨.ofSession { s with interpreter := s.interpreter.note (readFailed path fault) }, history⟩

/-- Saves the history. -/
def save (s : Interactive) (files : Files) (path : Bytes) : Interactive × Files :=
  if path.isEmpty then (s, files)
  else match files.write path s.history.text with
    | .ok files => (s, files)
    | .error message =>
      let session := s.console.session
      let session :=
        { session with interpreter := session.interpreter.note (saveFailed path message) }
      ({ s with console := { s.console with session } }, files)

/-- How a session ended. -/
structure Ending where
  interactive : Interactive
  files : Files
  /-- Whether the prompt was refused. -/
  refused : Bool

/-- Runs a session over an input; `none` if an evaluation was cut off. -/
def run (s : Session) (files : Files) (path input : Bytes) : Option Ending :=
  let start := start s files.find path
  let played := if isRefused s.prompt then some start
    else start.play ((pieces input).map Piece.text)
  match played with
  | none => none
  | some s' =>
    let (saved, files) := s'.save files path
    some ⟨saved, files, isRefused s.prompt⟩

end Interactive

end Monkey.Session
