import Monkey.Journal.Record
import Monkey.Text.Blank

/-!
# Filters

A filter decides which records are written. A record is written if its severity is within the
verbosity; beyond that, rules may raise the verbosity for single files, and the first rule that
matches the file of the component decides.

Rules are given as a list `pattern=level,pattern=level`. A pattern is a path, the parts of which
have to be found in a row at the end of the path of the file; `*` stands for any number of
directories. A pattern that does not name a file itself stands for every file of a directory.
Where the components' files lie is not part of a filter: a `Layout` says it.
-/

namespace Monkey.Journal

/-- The file of each component, and the ending of such files' names. -/
structure Layout where
  extension : Bytes
  path : Component → Bytes

namespace Layout

/-- The places under which patterns find the components of this program. -/
def library : Layout where
  extension := utf8 ".lean"
  path
    | .grammar => utf8 "monkey/parser/trace.lean"
    | .evaluation => utf8 "monkey/evaluator/eval.lean"
    | .interpreter => utf8 "monkey/interpreter/interpreter.lean"
    | .session => utf8 "monkey/repl/session.lean"

end Layout

/-- The parts of a pattern, each of which takes up a stretch of a path. -/
inductive Piece where
  | anything
  | literal (text : Bytes)
  | directories
  | file
  deriving DecidableEq, Repr

/-- A text and all its endings, down to the empty one. -/
def endings : Bytes → List Bytes
  | [] => [[]]
  | b :: rest => (b :: rest) :: endings rest

/-- Whether a text is the name of a file, after a slash, with the given ending. -/
def isFile (extension : Bytes) : Bytes → Bool
  | 0x2f :: name =>
    !name.contains 0x2f && extension.length < name.length && extension.isSuffixOf name
  | _ => false

/-- Whether the pieces, one after the other, take up the whole text. -/
def matchPieces (extension : Bytes) : List Piece → Bytes → Bool
  | [], text => text.isEmpty
  | .anything :: rest, text => (endings text).any (matchPieces extension rest)
  | .literal part :: rest, text =>
    part.isPrefixOf text && matchPieces extension rest (text.drop part.length)
  | .directories :: rest, text =>
    matchPieces extension rest text ||
      (match text with
        | 0x2f :: below => (endings below).any (matchPieces extension rest)
        | _ => false)
  | .file :: rest, text =>
    rest.isEmpty && isFile extension text

/-- The pieces of a pattern. -/
def piecesOf (extension pattern : Bytes) : List Piece :=
  let parts := (pattern.splitOn 0x2f).filterMap fun part =>
    if part = utf8 "*" then some .directories
    else if part.isEmpty then none
    else some (.literal (utf8 "/" ++ part))
  .anything :: parts ++ if extension.isSuffixOf pattern then [] else [.file]

structure FilterRule where
  pattern : Bytes
  level : Int
  deriving DecidableEq, Repr

/-- One rule of a list: a pattern, an equals sign and a level. A rule that could let nothing
through is dropped, and so is an empty one; `none` says that the text is no rule. -/
def FilterRule.ofText? (text : Bytes) : Option (Option FilterRule) :=
  match text.splitOn 0x3d with
  | [pattern, level] =>
    let pattern := Text.trim pattern
    match pattern, Text.Decimal.int64? (Text.trim level) with
    | [], _ => none
    | _, none => none
    | _, some n => some (if 0 < n.toInt then some ⟨pattern, n.toInt⟩ else none)
  | [[]] => some none
  | _ => none

/-- The rules of a list, or nothing if one of them is malformed. -/
def rulesOfText? (text : Bytes) : Option (List FilterRule) :=
  ((text.splitOn 0x2c).mapM FilterRule.ofText?).map fun rules => rules.filterMap id

structure Filter where
  verbosity : Severity
  rules : List FilterRule
  deriving DecidableEq, Repr

namespace Filter

def badRules (text : Bytes) : Bytes :=
  utf8 "debug: invalid vmodule " ++ Text.quote text ++
    utf8 ": expect comma-separated list of filename=N"

/-- The filter of a verbosity and a list of rules, or what is wrong with the list. -/
def ofText (verbosity : Severity) (rules : Bytes) : Except Bytes Filter :=
  match rulesOfText? rules with
  | some rules => .ok ⟨verbosity, rules⟩
  | none => .error (badRules rules)

def allows (layout : Layout) (f : Filter) (r : Record) : Bool :=
  r.severity.rank ≤ f.verbosity.rank ||
    match f.rules.find? fun rule =>
      matchPieces layout.extension (piecesOf layout.extension rule.pattern)
        (layout.path r.component) with
    | some rule => (r.severity.rank : Int) ≤ rule.level
    | none => false

end Filter

end Monkey.Journal
