import Monkey.CommandLine.Flags

/-!
# Commands and their help

The commands of the program, the flags that go with them, and the help texts, which are laid out
from both. In a list, explanations start in one column, two spaces after the longest entry.
-/

namespace Monkey.CommandLine

/-- What a command does. -/
inductive Command where
  | repl
  | run
  | parse
  | tokens
  | help
  deriving DecidableEq, Repr

namespace Command

def all : List Command := [repl, run, parse, tokens, help]

def name : Command → String
  | repl => "repl"
  | run => "run"
  | parse => "parse"
  | tokens => "tokens"
  | help => "help"

def names : Command → List String
  | help => ["help", "h"]
  | command => [command.name]

def usage : Command → String
  | repl => "Start an interactive session"
  | run => "Evaluate a source file"
  | parse => "Parse a source file and print the syntax tree"
  | tokens => "Print the tokens of a source file"
  | help => "Shows a list of commands or help for one command"

def argumentUsage : Command → String
  | repl => "[<file>]"
  | help => "[command]"
  | _ => "<file>"

def description : Command → Option String
  | repl => some ("\nThe repl command starts a read-eval-print loop. If a file is given it is\n" ++
      "evaluated first and its bindings are available in the session.")
  | run => some
      ("\nThe run command evaluates a file and prints the value of its last statement.\n" ++
        "It exits with status 1 on an evaluation error and 2 on parse errors.")
  | _ => none

/-- The name of a command in its own help. -/
def helpName : Command → String
  | help => ""
  | command => "monkey " ++ command.name

def ofName? (name : Bytes) : Option Command :=
  all.find? fun command => command.names.any fun known => utf8 known == name

end Command

def dumpFlag : Flag := .switch "dump" "Print the full syntax tree instead of its source form"

def statsFlag : Flag := .switch "stats" "Print a table of node kinds and their counts"

def configFlag : Flag := .valued "config" "YAML or TOML configuration file"

def verbosityFlag : Flag :=
  .valued "verbosity" "Logging verbosity: crit, error, warn, info, debug, trace"

def vmoduleFlag : Flag :=
  .valued "vmodule"
    "Per-file verbosity: comma-separated list of <pattern>=<level> (e.g. parser/*=5)"

def noColorFlag : Flag := .switch "nocolor" "Disable coloured output"

def modeFlag : Flag := .valued "mode" "REPL mode: eval or parse"

def helpFlag : Flag := ⟨"help", some "h", true, "show help"⟩

def versionFlag : Flag := ⟨"version", some "v", true, "print the version"⟩

def globalFlags : List Flag :=
  [configFlag, verbosityFlag, vmoduleFlag, noColorFlag, modeFlag, helpFlag, versionFlag]

/-- The flags of a command, but for the one that asks for help. -/
def Command.flags : Command → List Flag
  | .parse => [dumpFlag, statsFlag]
  | _ => []

def version : String := "0.1.0"

def programUsage : String := "the Monkey programming language interpreter"

/-- How a flag is listed. -/
def Flag.label (f : Flag) : String :=
  let dashed := ", ".intercalate (("--" ++ f.name) :: f.short.toList.map ("-" ++ ·))
  if f.isSwitch then dashed else dashed ++ " value"

/-- Lines of entries and explanations, in two columns. -/
def columns (entries : List (String × String)) : List String :=
  let width := (entries.map fun entry => entry.1.length).foldl max 0
  entries.map fun (label, usage) =>
    label ++ String.ofList (List.replicate (width + 2 - label.length) ' ') ++ usage

def flagLines (flags : List Flag) : List String :=
  columns (flags.map fun f => (f.label, f.usage))

def commandLines : List String :=
  columns (Command.all.map fun command => (", ".intercalate command.names, command.usage))

def indented (indent : String) (lines : List String) : String :=
  "".intercalate (lines.map fun line => indent ++ line ++ "\n")

/-- The help of the program. -/
def programHelp : Bytes :=
  utf8 <| "NAME:\n   monkey - " ++ programUsage ++
    "\n\nUSAGE:\n   monkey [global options] command [command options] [arguments...]" ++
    "\n\nVERSION:\n   " ++ version ++
    "\n\nCOMMANDS:\n" ++ indented "     " commandLines ++
    "\nGLOBAL OPTIONS:\n" ++ indented "   " (flagLines globalFlags)

/-- The help that is given for a command without a name: the one of the program as a command. -/
def namelessHelp : Bytes :=
  utf8 <| "NAME:\n   monkey - " ++ programUsage ++
    "\n\nUSAGE:\n   monkey command [command options] [arguments...]" ++
    "\n\nCOMMANDS:\n" ++ indented "     " commandLines ++
    "\nOPTIONS:\n" ++ indented "   " (flagLines globalFlags) ++ "   \n"

/-- The help of a command. -/
def Command.helpText (c : Command) : Bytes :=
  utf8 <| "NAME:\n   " ++ c.helpName ++ " - " ++ c.usage ++
    "\n\nUSAGE:\n   " ++ c.helpName ++ (if c.flags.isEmpty then "" else " [command options]") ++
    " " ++ c.argumentUsage ++
    (match c.description with
      | some text => "\n\nDESCRIPTION:\n   " ++ text
      | none => "") ++
    (if c.flags.isEmpty then "\n"
      else "\n\nOPTIONS:\n" ++ indented "   " (flagLines c.flags) ++ "   \n")

end Monkey.CommandLine
