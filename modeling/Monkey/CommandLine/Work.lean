import Monkey.CommandLine.Plan
import Monkey.Journal.Filter
import Monkey.Session.Console
import Monkey.Settings.Load
import Monkey.Tree.Dump
import Monkey.Tree.Walk

/-!
# Carrying out a plan

First the settings are put together: the ones of a file, if there is one, and over them the ones
that flags ask for. Then the file of the task is read, and the task is done. Every step can end
the run, with status 2 for what is wrong with the settings or a file, and 1 for an error of the
program that was run.
-/

namespace Monkey.CommandLine

/-- What is fixed for a run: the settings and the filter of the log. -/
structure Setup where
  settings : Settings
  filter : Journal.Filter

namespace Setup

/-- The settings with what flags ask for. -/
def override (o : Overrides) (s : Settings) : Settings :=
  { s with
    verbosity := o.verbosity.getD s.verbosity
    noColor := o.noColor.getD s.noColor
    mode := o.mode.getD s.mode }

/-- Puts the settings together, or says what is wrong with them. -/
def ofOverrides (find : Files.Finder) (o : Overrides) : Except Bytes Setup := do
  let base ← if o.config.isEmpty then .ok Settings.defaults
    else (Settings.load find o.config).mapError Settings.LoadFault.message
  let settings := override o base
  if settings.issues.isEmpty then
    let filter ← Journal.Filter.ofText settings.severity o.vmodule
    .ok ⟨settings, filter⟩
  else .error (Settings.issueSummary (settings.issues.map Settings.Issue.message))

end Setup

/-- Why a task ends early. -/
structure Failure where
  status : Nat
  complaint : Bytes
  deriving DecidableEq, Repr

def parseFailure (file : Bytes) (faults : List Grammar.Fault) : Failure :=
  ⟨2, file ++ utf8 ": parser errors:" ++
    faults.flatMap fun fault => utf8 "\n\t" ++ fault.message⟩

def readFile (find : Files.Finder) (file : Bytes) : Except Failure Bytes :=
  (find.read file).mapError fun message => ⟨2, message⟩

/-- The source that a task needs. -/
def sourceOf (find : Files.Finder) (task : Task) (file : Bytes) : Except Failure Bytes :=
  if file.isEmpty then
    .error ⟨2, utf8 task.command.name ++ utf8 ": missing <file> argument"⟩
  else readFile find file

/-- Evaluates the source of a file. -/
def evalSource (i : Interpreter) (file source : Bytes) :
    Option (Except Failure (Option Value) × Interpreter) :=
  match i.eval source with
  | none => none
  | some (.error faults, i) => some (.error (parseFailure file faults), i)
  | some (.ok (some (.error fault)), i) => some (.error ⟨1, (Value.error fault).inspect⟩, i)
  | some (.ok result, i) => some (.ok result, i)

/-- The number of nodes of each kind as a table, with their sum below. -/
def censusTable (program : Program) : Text.Table :=
  let census := (Node.program program).census
  let total := census.foldl (fun sum entry => sum + entry.2) 0
  { header := [utf8 "Node", utf8 "Count"]
    rows := census.map fun (kind, count) => [utf8 kind, Text.Decimal.ofNat count]
    footer := some [utf8 "Total", Text.Decimal.ofNat total] }

def programText (dump stats : Bool) (program : Program) : Bytes :=
  (if dump then program.dump else program.render ++ utf8 "\n") ++
    if stats then (censusTable program).render else []

/-- A token in columns: its place, its kind and its text. -/
def tokenLine (t : Token) : Bytes :=
  Text.Table.toLeft 7 t.pos.text ++ utf8 " " ++ Text.Table.toLeft 9 t.kind.text ++ utf8 " " ++
    Text.quote t.literal ++ utf8 "\n"

/-- The report of a task that was done with an interpreter. -/
def reportOf (layout : Journal.Layout) (setup : Setup) (i : Interpreter)
    (result : Except Failure Bytes) : Report :=
  let log := i.records.filter (setup.filter.allows layout)
  match result with
  | .ok stdout => ⟨0, stdout, log, none⟩
  | .error failure => ⟨failure.status, [], log, some failure.complaint⟩

/-- The interpreter of a session, in which the source of a file was evaluated if there is one. -/
def sessionInterpreter (find : Files.Finder) (setup : Setup) (file : Bytes) :
    Option (Except Failure Unit × Interpreter) :=
  let i := Interpreter.ofSettings setup.settings
  if file.isEmpty then some (.ok (), i)
  else match readFile find file with
    | .error failure => some (.error failure, i)
    | .ok source => (evalSource i file source).map fun (result, i) => (result.map fun _ => (), i)

/-- A session over an input that is no terminal. -/
def replReport (layout : Journal.Layout) (find : Files.Finder) (setup : Setup)
    (file input : Bytes) : Option Report :=
  match sessionInterpreter find setup file with
  | none => none
  | some (.error failure, i) => some (reportOf layout setup i (.error failure))
  | some (.ok _, i) =>
    match (Session.ofSettings setup.settings false i).run input with
    | none => none
    | some run =>
      let report := reportOf layout setup run.console.session.interpreter (.ok run.console.output)
      some (if run.overlong then
        { report with status := 1, complaint := some Session.overlongText } else report)

/-- Does a task; `none` if an evaluation was cut off. -/
def perform (layout : Journal.Layout) (find : Files.Finder) (setup : Setup) (task : Task)
    (file input : Bytes) : Option Report :=
  let i := Interpreter.ofSettings setup.settings
  match task with
  | .repl => replReport layout find setup file input
  | .run =>
    match sourceOf find task file with
    | .error failure => some (reportOf layout setup i (.error failure))
    | .ok source =>
      (evalSource i file source).map fun (result, i) =>
        reportOf layout setup i (result.map fun
          | some value => value.inspect ++ utf8 "\n"
          | none => [])
  | .parse dump stats =>
    match sourceOf find task file with
    | .error failure => some (reportOf layout setup i (.error failure))
    | .ok source =>
      match i.parse source with
      | (.ok program, i) => some (reportOf layout setup i (.ok (programText dump stats program)))
      | (.error faults, i) => some (reportOf layout setup i (.error (parseFailure file faults)))
  | .tokens =>
    some (reportOf layout setup i ((sourceOf find task file).map fun source =>
      (Token.tokens source).flatMap tokenLine))

/-- Carries out a plan; `none` if an evaluation was cut off. -/
def Plan.carryOut (layout : Journal.Layout) (find : Files.Finder) (input : Bytes) :
    Plan → Option Report
  | .answer report => some report
  | .work overrides task file =>
    match Setup.ofOverrides find overrides with
    | .error message => some (.failed 2 message)
    | .ok setup => perform layout find setup task file input

/-- A whole run of the program, with arguments, files and input. -/
def run (layout : Journal.Layout) (find : Files.Finder) (arguments : List Bytes) (input : Bytes) :
    Option Report :=
  (Plan.ofArguments arguments).carryOut layout find input

end Monkey.CommandLine
