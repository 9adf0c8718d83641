import Monkey.CommandLine.Commands
import Monkey.Journal.Record

/-!
# Plans

What the arguments of the program ask for. Either the answer is known from the arguments alone, or
there is work to do, for which the plan says what, with which settings, and on which file.

Flags of the program come before the command. The flags of a command may also come after its other
arguments.
-/

namespace Monkey.CommandLine

/-- How a run of the program ends, and what it wrote. -/
structure Report where
  status : Nat
  stdout : Bytes
  /-- The records that were logged. -/
  log : List Journal.Record
  /-- What is said at the end about an error. -/
  complaint : Option Bytes

namespace Report

/-- A run that wrote a text. -/
def wrote (text : Bytes) : Report := ⟨0, text, [], none⟩

/-- A run that ended with an error. -/
def failed (status : Nat) (complaint : Bytes) : Report := ⟨status, [], [], some complaint⟩

/-- The lines on the channel for errors: the log, and after it the complaint. -/
def errorLines (r : Report) : List Bytes :=
  r.log.map (Journal.Record.line false) ++ match r.complaint with
    | some text => text.splitOn 0x0a
    | none => []

end Report

/-- The settings that flags ask for. -/
structure Overrides where
  config : Bytes
  verbosity : Option Bytes
  vmodule : Bytes
  noColor : Option Bool
  mode : Option Bytes
  deriving DecidableEq, Repr

/-- Work on a file. -/
inductive Task where
  | repl
  | run
  | parse (dump stats : Bool)
  | tokens
  deriving DecidableEq, Repr

/-- The command that a task belongs to. -/
def Task.command : Task → Command
  | repl => .repl
  | run => .run
  | parse _ _ => .parse
  | tokens => .tokens

inductive Plan where
  | answer (report : Report)
  | work (overrides : Overrides) (task : Task) (file : Bytes)

namespace Plan

/-- The files that a plan asks for. -/
def paths : Plan → List Bytes
  | answer _ => []
  | work overrides _ file => [overrides.config, file].filter fun path => !path.isEmpty

def overridesOf (a : Arguments) : Overrides where
  config := (a.text? configFlag).getD []
  verbosity := a.text? verbosityFlag
  vmodule := (a.text? vmoduleFlag).getD []
  noColor := a.switch? noColorFlag
  mode := a.text? modeFlag

def twoForms (names : String × String) : Bytes :=
  utf8 ("Cannot use two forms of the same flag: " ++ names.1 ++ " " ++ names.2)

/-- An error in the arguments: the text goes before the help. -/
def misuse (heading message help : Bytes) : Plan :=
  .answer ⟨1, heading ++ help, [], some message⟩

/-- The answer to a request for help on a command. -/
def helpOn (name : Bytes) : Plan :=
  if name.isEmpty then .answer (.wrote namelessHelp)
  else match Command.ofName? name with
    | some command => .answer (.wrote command.helpText)
    | none => .answer (.failed 3 (utf8 "No help topic for '" ++ name ++ utf8 "'"))

/-- Whether an argument looks like a flag. -/
def looksLikeFlag (argument : Bytes) : Bool :=
  argument.head? = some 0x2d && argument != utf8 "-" && argument != utf8 "--"

/-- The arguments of a command with its flags in front. Whatever comes after a double dash stays
there. -/
def flagsFirst (arguments : List Bytes) : List Bytes :=
  let front := arguments.takeWhile (· != utf8 "--")
  let back := arguments.dropWhile (· != utf8 "--")
  let plain := front.takeWhile fun argument => !looksLikeFlag argument
  let flagged := front.dropWhile fun argument => !looksLikeFlag argument
  if flagged.isEmpty then arguments else flagged ++ plain ++ back

/-- What a command does with its arguments. -/
def ofCommand (overrides : Overrides) (command : Command) (a : Arguments) : Plan :=
  match command with
  | .repl => .work overrides .repl a.first
  | .run => .work overrides .run a.first
  | .parse => .work overrides (.parse (a.isOn dumpFlag) (a.isOn statsFlag)) a.first
  | .tokens => .work overrides .tokens a.first
  | .help =>
    match a.rest with
    | name :: _ => helpOn name
    | [] => .answer (.wrote programHelp)

/-- The plan of a command and the arguments after it. -/
def readCommand (overrides : Overrides) (command : Command) (arguments : List Bytes) : Plan :=
  let flags := command.flags ++ [helpFlag]
  let a := Arguments.read flags (flagsFirst arguments)
  match a.twice? flags, a.fault with
  | some names, _ =>
    misuse (twoForms names ++ utf8 "\n\n") (twoForms names) command.helpText
  | none, some fault =>
    misuse (utf8 "Incorrect Usage: " ++ fault.message ++ utf8 "\n\n") fault.message
      command.helpText
  | none, none =>
    if a.isOn helpFlag then .answer (.wrote command.helpText) else ofCommand overrides command a

/-- The plan of the arguments of the program. -/
def ofArguments (arguments : List Bytes) : Plan :=
  let a := Arguments.read globalFlags arguments
  match a.twice? globalFlags, a.fault with
  | some names, _ => misuse (twoForms names ++ utf8 "\n") (twoForms names) programHelp
  | none, some fault =>
    misuse (utf8 "Incorrect Usage. " ++ fault.message ++ utf8 "\n\n") fault.message programHelp
  | none, none =>
    if a.isOn helpFlag then .answer (.wrote programHelp)
    else if a.isOn versionFlag then
      .answer (.wrote (utf8 ("monkey version " ++ version ++ "\n")))
    else match a.rest with
      | [] => .work (overridesOf a) .repl []
      | name :: rest =>
        match Command.ofName? name with
        | some command => readCommand (overridesOf a) command rest
        | none => .work (overridesOf a) .repl name

end Plan

end Monkey.CommandLine
