import Monkey.Interpreter.Basic
import Monkey.Session.Input
import Monkey.Text.LowerCase
import Monkey.Text.Table
import Monkey.Tree.Render

/-!
# Sessions

A session answers one input after the other. An input is evaluated, or only read, depending on
the mode, and the answer is its result. An input that starts with a colon is a command to the
session itself.
-/

namespace Monkey

structure Session where
  interpreter : Interpreter
  mode : Bytes
  prompt : Bytes
  colours : Bool

namespace Session

def evalMode : Bytes := utf8 "eval"

def parseMode : Bytes := utf8 "parse"

/-- A session with the given settings, which goes on with an interpreter. Colours are used if
there is a place for them and they are not switched off. -/
def ofSettings (s : Settings) (colours : Bool) (i : Interpreter) : Session where
  interpreter := i
  mode := if s.mode.isEmpty then evalMode else s.mode
  prompt := if s.prompt.isEmpty then Settings.defaults.prompt else s.prompt
  colours := colours && !s.noColor

/-- The answer to an input. -/
structure Reply where
  output : Bytes
  session : Session
  quits : Bool

/-- An answer after which the session goes on. -/
def reply (s : Session) (output : Bytes) : Reply := ⟨output, s, false⟩

/-- A line in a colour, which is switched off again after the end of the line. -/
def shaded (s : Session) (code : String) (text : Bytes) : Bytes :=
  if s.colours then
    utf8 "\x1b[" ++ utf8 code ++ utf8 "m" ++ text ++ utf8 "\n" ++ utf8 "\x1b[0m"
  else text ++ utf8 "\n"

def red (s : Session) (text : Bytes) : Bytes := s.shaded "31" text

def faint (s : Session) (text : Bytes) : Bytes := s.shaded "2" text

def helpText : Bytes :=
  utf8 "Commands:\n" ++
  utf8 "  :help               show this message\n" ++
  utf8 "  :env                list the bindings of the global environment\n" ++
  utf8 "  :mode [eval|parse]  show or switch the mode\n" ++
  utf8 "  :quit               exit the REPL\n"

def face : Bytes :=
  utf8 "            __,__\n" ++
  utf8 "   .--.  .-\"     \"-.  .--.\n" ++
  utf8 "  / .. \\/  .-. .-.  \\/ .. \\\n" ++
  utf8 " | |  '|  /   Y   \\  |'  | |\n" ++
  utf8 " | \\   \\  \\ 0 | 0 /  /   / |\n" ++
  utf8 "  \\ '- ,\\.-\"\"\"\"\"\"\"-./, -' /\n" ++
  utf8 "   ''-' /_   ^ ^   _\\ '-''\n" ++
  utf8 "       |  \\._   _./  |\n" ++
  utf8 "       \\   \\ '~' /   /\n" ++
  utf8 "        '._ '-=-' _.'\n" ++
  utf8 "           '-----'\n"

/-- What is shown for an input that cannot be read. -/
def faultText (faults : List Grammar.Fault) : Bytes :=
  face ++ utf8 "Woops! We ran into some monkey business here!\n" ++ utf8 " parser errors:\n" ++
    faults.flatMap fun fault => utf8 "\t" ++ fault.message ++ utf8 "\n"

/-- The bindings as a table. A value is shown in one line. -/
def bindingTable (bindings : Bindings) : Text.Table where
  header := [utf8 "Name", utf8 "Type", utf8 "Value"]
  rows := bindings.map fun (name, value) =>
    [name, utf8 value.kind.text, Bytes.join (utf8 " ") (Text.fields value.inspect)]
  footer := none

def bindingText (s : Session) : Bytes :=
  if s.interpreter.bindings.isEmpty then s.faint (utf8 "(no bindings)")
  else (bindingTable s.interpreter.bindings).render

inductive Command where
  | quit
  | help
  | bindings
  | mode
  | unknown
  deriving DecidableEq, Repr

/-- The command of a name, in which capitals do not matter. -/
def Command.ofName (name : Bytes) : Command :=
  ([(":quit", quit), (":q", quit), (":exit", quit), (":help", help), (":env", bindings),
    (":mode", mode)].find? fun entry => utf8 entry.1 == Text.lowerCase name).elim unknown Prod.snd

def modeText (s : Session) : Bytes := utf8 "mode: " ++ s.mode ++ utf8 "\n"

/-- Carries out a command, given by its words. -/
def command (s : Session) : List Bytes → Reply
  | [] => s.reply []
  | name :: args =>
    match Command.ofName name, args with
    | .quit, _ => ⟨[], s, true⟩
    | .help, _ => s.reply helpText
    | .bindings, _ => s.reply s.bindingText
    | .mode, [] => s.reply s.modeText
    | .mode, mode :: _ =>
      if mode = evalMode || mode = parseMode then
        let s := { s with mode }
        s.reply s.modeText
      else
        s.reply (s.red
          (utf8 "unknown mode " ++ Text.quote mode ++ utf8 " (want eval or parse)"))
    | .unknown, _ =>
      s.reply (s.red
        (utf8 "unknown command " ++ name ++ utf8 ". Type :help for a list of commands."))

/-- What is shown of a result. -/
def resultText (s : Session) : Option Value → Bytes
  | none => []
  | some (.error fault) => s.red (Value.error fault).inspect
  | some value => value.inspect ++ utf8 "\n"

/-- The answer to an input that is to be read. -/
def readInput (s : Session) (text : Bytes) : Reply :=
  match s.interpreter.parse text with
  | (.ok program, i) => { s with interpreter := i }.reply (program.render ++ utf8 "\n")
  | (.error faults, i) => { s with interpreter := i }.reply (faultText faults)

/-- The answer to an input that is to be evaluated. -/
def evalInput (s : Session) (text : Bytes) : Option Reply :=
  match s.interpreter.eval text with
  | some (.ok result, i) => some ({ s with interpreter := i }.reply (s.resultText result))
  | some (.error faults, i) => some ({ s with interpreter := i }.reply (faultText faults))
  | none => none

/-- The answer to an input; `none` if its evaluation was cut off. -/
def handle (s : Session) (text : Bytes) : Option Reply :=
  if isBlankText text then some (s.reply [])
  else if isCommand text then some (s.command (Text.fields text))
  else if s.mode = parseMode then some (s.readInput text)
  else s.evalInput text

end Session

end Monkey
