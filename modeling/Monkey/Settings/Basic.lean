import Monkey.Journal.Severity
import Monkey.Text.Quoted
import Monkey.Text.Decimal

/-!
# Settings

What can be set for a session: the prompt, the file that keeps the history, whether colours are
switched off, how much is logged, whether inputs are evaluated or only read, and for how many
sources the parsed program is kept. Texts are kept as they were given; `issues` says what is wrong
with them, and a text that is not known stands for the default where it is used all the same.
-/

namespace Monkey

structure Settings where
  prompt : Bytes
  historyFile : Bytes
  noColor : Bool
  verbosity : Bytes
  mode : Bytes
  parseCache : Int
  deriving DecidableEq, Repr

namespace Settings

def defaults : Settings where
  prompt := utf8 ">> "
  historyFile := []
  noColor := false
  verbosity := utf8 "warn"
  mode := utf8 "eval"
  parseCache := 128

/-- Settings in which nothing is set. -/
def blank : Settings := ⟨[], [], false, [], [], 0⟩

/-- The level of logging. -/
def severity (s : Settings) : Journal.Severity :=
  (Journal.Severity.ofText? s.verbosity).getD .warn

/-- What is wrong with a setting. -/
inductive Issue where
  | emptyPrompt
  | unknownMode (mode : Bytes)
  | unknownVerbosity (verbosity : Bytes)
  | negativeCache (size : Int)
  deriving DecidableEq, Repr

def Issue.message : Issue → Bytes
  | emptyPrompt => utf8 "prompt must be a non-empty string"
  | unknownMode mode => utf8 "mode must be \"eval\" or \"parse\", got " ++ Text.quote mode
  | unknownVerbosity verbosity =>
    utf8 "verbosity " ++ Text.quote verbosity ++ utf8 " is not a known level"
  | negativeCache size => utf8 "parse_cache must be >= 0, got " ++ Text.Decimal.ofInt size

def issues (s : Settings) : List Issue :=
  (if s.prompt.isEmpty then [.emptyPrompt] else []) ++
  (if s.mode = utf8 "eval" || s.mode = utf8 "parse" then [] else [.unknownMode s.mode]) ++
  (if (Journal.Severity.ofText? s.verbosity).isSome then []
    else [.unknownVerbosity s.verbosity]) ++
  (if s.parseCache < 0 then [.negativeCache s.parseCache] else [])

/-- All issues as a single text. -/
def issueSummary : List Bytes → Bytes
  | [] => utf8 "config: invalid configuration"
  | messages =>
    utf8 "config validation failed:" ++ messages.flatMap fun message => utf8 "\n- " ++ message

/-- The name of a setting in a file. -/
inductive Key where
  | prompt
  | historyFile
  | noColor
  | verbosity
  | mode
  | parseCache
  deriving DecidableEq, Repr

def Key.ofText? (text : Bytes) : Option Key :=
  ([("prompt", prompt), ("history_file", historyFile), ("no_color", noColor),
    ("verbosity", verbosity), ("mode", mode), ("parse_cache", parseCache)].find?
      fun entry => utf8 entry.1 == text).map Prod.snd

/-- What kind of value a setting takes. -/
inductive Form where
  | text
  | flag
  | number
  deriving DecidableEq, Repr

def Key.form : Key → Form
  | prompt => .text
  | historyFile => .text
  | noColor => .flag
  | verbosity => .text
  | mode => .text
  | parseCache => .number

/-- A value that a file gives to a setting. -/
inductive Given where
  | text (value : Bytes)
  | flag (value : Bool)
  | number (value : Int)
  deriving DecidableEq, Repr

/-- Settings with one of them changed, if the value is of the right kind. -/
def set? (s : Settings) : Key → Given → Option Settings
  | .prompt, .text value => some { s with prompt := value }
  | .historyFile, .text value => some { s with historyFile := value }
  | .noColor, .flag value => some { s with noColor := value }
  | .verbosity, .text value => some { s with verbosity := value }
  | .mode, .text value => some { s with mode := value }
  | .parseCache, .number value => some { s with parseCache := value }
  | _, _ => none

end Settings

end Monkey
