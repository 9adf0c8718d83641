import Monkey.CommandLine.Work
import Monkey.Session.Interactive

/-!
# The program

Reads the arguments, the files that they ask for, and the standard input, and writes what comes of
them. At a terminal a session goes on line by line; everywhere else the whole input is read first.
-/

open Monkey

namespace Monkey.Main

def bytesOf (data : ByteArray) : Bytes := data.toList

def dataOf (bs : Bytes) : ByteArray := ⟨bs.toArray⟩

def write (stream : IO.FS.Stream) (bs : Bytes) : IO Unit := do
  stream.write (dataOf bs)
  stream.flush

/-- What an error of the operating system means for a path. -/
def faultOf : IO.Error → Files.Fault
  | .inappropriateType _ _ _ => .isDirectory
  | _ => .missing

def findFile (path : Bytes) : IO (Except Files.Fault Files.Entry) := do
  match String.fromUTF8? (dataOf path) with
  | none => pure (.error .missing)
  | some name =>
    try
      let content ← IO.FS.readBinFile name
      pure (.ok (.file (bytesOf content)))
    catch e =>
      match faultOf e with
      | .isDirectory => pure (.ok .directory)
      | fault => pure (.error fault)

/-- Reads the given files. -/
def finderOf (paths : List Bytes) : IO Files.Finder := do
  let found ← paths.mapM fun path => do
    pure (path, ← findFile path)
  pure fun path => (found.lookup path).getD (.error .missing)

partial def readAll (stream : IO.FS.Stream) (done : ByteArray) : IO ByteArray := do
  let data ← stream.read 65536
  if data.isEmpty then pure done else readAll stream (done ++ data)

/-- A line without its end, or nothing at the end of the input. -/
def readLine? (stream : IO.FS.Stream) : IO (Option Bytes) := do
  let line ← stream.getLine
  if line.isEmpty then pure none
  else pure (((Session.pieces (utf8 line)).head?).map Session.Piece.text)

/-- The status of a run in which an evaluation was cut off. -/
def cutOff : IO UInt32 := do
  IO.eprintln "stack overflow"
  pure 2

def writeErrors (lines : List Bytes) : IO Unit := do
  let stderr ← IO.getStderr
  for line in lines do
    write stderr (line ++ utf8 "\n")

def writeReport (r : CommandLine.Report) : IO UInt32 := do
  write (← IO.getStdout) r.stdout
  writeErrors r.errorLines
  pure (UInt32.ofNat r.status)

/-- Writes what is new in a session: what it shows, and its log. -/
def writeNews (setup : CommandLine.Setup) (before after : Session.Interactive) : IO Unit := do
  let events := after.console.transcript.take
    (after.console.transcript.length - before.console.transcript.length)
  write (← IO.getStdout) (events.reverse.map Session.Event.output).flatten
  let old := before.console.session.interpreter.journal.length
  let journal := after.console.session.interpreter.journal
  let records := (journal.take (journal.length - old)).reverse
  writeErrors ((records.filter (setup.filter.allows .library)).map (Journal.Record.line false))

/-- Goes on with a session to its end. -/
partial def converse (setup : CommandLine.Setup) (s : Session.Interactive) :
    IO (Option Session.Interactive) := do
  let asked := { s with console := s.console.ask }
  writeNews setup s asked
  match ← readLine? (← IO.getStdin) with
  | none =>
    let ended := { asked with console := asked.console.display .newline }
    writeNews setup asked ended
    pure (some ended)
  | some line =>
    match asked.accept line with
    | none => pure none
    | some (next, quits) =>
      writeNews setup asked next
      if quits then pure (some next) else converse setup next

def saveHistory (path : Bytes) (h : Session.History) : IO Unit := do
  if let some name := String.fromUTF8? (dataOf path) then
    unless path.isEmpty do
      try IO.FS.writeBinFile name (dataOf h.text)
      catch _ =>
        let fault := Files.Fault.missing.message "open" path
        writeErrors [(Session.Interactive.saveFailed path fault).line false]

/-- A session at a terminal. -/
def terminalSession (setup : CommandLine.Setup) (i : Interpreter) : IO UInt32 := do
  let path := setup.settings.historyFile
  let session := Session.ofSettings setup.settings (← (← IO.getStdout).isTty) i
  if Session.Interactive.isRefused session.prompt then
    writeErrors [Session.Interactive.refusedPrompt]
    pure 1
  else
    let find ← finderOf [path]
    match ← converse setup (Session.Interactive.start session find path) with
    | none => cutOff
    | some s =>
      saveHistory path s.history
      pure 0

/-- A session at a terminal, if the plan asks for one and its settings and file are in order. -/
def terminalPlan? (find : Files.Finder) (plan : CommandLine.Plan) :
    Option (CommandLine.Setup × Interpreter) :=
  match plan with
  | .work overrides .repl file =>
    match CommandLine.Setup.ofOverrides find overrides with
    | .error _ => none
    | .ok setup =>
      match CommandLine.sessionInterpreter find setup file with
      | some (.ok _, i) => some (setup, i)
      | _ => none
  | _ => none

def isSession : CommandLine.Plan → Bool
  | .work _ .repl _ => true
  | _ => false

end Monkey.Main

open Monkey.Main in
def main (arguments : List String) : IO UInt32 := do
  let plan := CommandLine.Plan.ofArguments (arguments.map utf8)
  let find ← finderOf plan.paths
  let stdin ← IO.getStdin
  match ← stdin.isTty, terminalPlan? find plan with
  | true, some (setup, i) => terminalSession setup i
  | _, _ =>
    let input ← if isSession plan then readAll stdin .empty else pure .empty
    match plan.carryOut .library find (bytesOf input) with
    | none => cutOff
    | some report => writeReport report
