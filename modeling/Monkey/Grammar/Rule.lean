import Monkey.Grammar.Fault
import Monkey.Token.Stream
import Monkey.Tree.Basic

/-!
# Rules

A rule of the grammar reads from a stream of tokens and either finds something or fails. When it
has found an expression or a statement, the current token is the last one that belongs to it. A
rule that fails has recorded one fault and leaves the stream wherever it stood at that point.

A rule is written down as the steps that it takes, and `run` takes them. So it can also be said what
happens on the way: which rules call each other, and which statements are dropped.

Rules that call each other are cut off at a given nesting, and a loop at a given number of rounds.
`Outcome.exhausted` says that such a bound was met; it is kept apart from failure, because it says
nothing about the tokens.

With tracing switched on, a rule notes when it begins and when it ends, however it ends.
-/

namespace Monkey.Grammar

/-- The rules that appear in a trace. -/
inductive RuleName where
  | binding
  | ret
  | exprStmt
  | expression
  | integer
  | unary
  | binary
  | cond
  | block
  | function
  | call
  deriving DecidableEq, Repr

def RuleName.text : RuleName → String
  | binding => "parseLetStatement"
  | ret => "parseReturnStatement"
  | exprStmt => "parseExpressionStatement"
  | expression => "parseExpression"
  | integer => "parseIntegerLiteral"
  | unary => "parsePrefixExpression"
  | binary => "parseInfixExpression"
  | cond => "parseIfExpression"
  | block => "parseBlockStatement"
  | function => "parseFunctionLiteral"
  | call => "parseCallExpression"

/-- One note of a trace: whether the rule begins or ends there, how many traced rules are around
it, and the current token. -/
structure TraceNote where
  begins : Bool
  depth : Nat
  rule : RuleName
  token : Token
  deriving DecidableEq, Repr

/-- What the rules work on. Faults and notes are held newest first. -/
structure State where
  input : Token.Stream
  faults : List Fault
  tracing : Bool
  depth : Nat
  notes : List TraceNote

namespace State

def ofStream (tracing : Bool) (input : Token.Stream) : State := ⟨input, [], tracing, 0, []⟩

def report (f : Fault) (s : State) : State := { s with faults := f :: s.faults }

def advance (s : State) : State := { s with input := s.input.advance }

/-- Notes that a rule begins. -/
def enter (rule : RuleName) (s : State) : State :=
  if s.tracing then
    { s with depth := s.depth + 1, notes := ⟨true, s.depth, rule, s.input.current⟩ :: s.notes }
  else s

/-- Notes that a rule ends. -/
def leave (rule : RuleName) (s : State) : State :=
  if s.tracing then
    { s with
      depth := s.depth - 1
      notes := ⟨false, s.depth - 1, rule, s.input.current⟩ :: s.notes }
  else s

end State

inductive Outcome (α : Type) where
  | found (a : α) (s : State)
  | failed (s : State)
  | exhausted

/-- The steps of a rule. -/
inductive Rule : Type → Type 1 where
  /-- Gives a result. -/
  | protected pure {α : Type} (a : α) : Rule α
  /-- One rule, and then another one that depends on what the first has found. -/
  | protected bind {α β : Type} (r : Rule α) (f : α → Rule β) : Rule β
  /-- The current token. -/
  | current : Rule Token
  /-- The token after the current one. -/
  | peek : Rule Token
  | advance : Rule Unit
  | fail {α : Type} (f : Fault) : Rule α
  /-- The bound for the nesting or for a loop has been met. -/
  | exhausted {α : Type} : Rule α
  /-- Reads a statement, and goes on without it after a failure. -/
  | attempt (r : Rule Stmt) : Rule (Option Stmt)
  /-- A call of a rule that notes its beginning and its end. -/
  | traced {α : Type} (name : RuleName) (r : Rule α) : Rule α
  /-- A call of a rule that appears in no trace. -/
  | silent {α : Type} (r : Rule α) : Rule α

namespace Rule

variable {α β : Type}

/-- Takes the steps of a rule. -/
def run : {α : Type} → Rule α → State → Outcome α
  | _, .pure a, s => .found a s
  | _, .bind r f, s =>
    match r.run s with
    | .found a s => (f a).run s
    | .failed s => .failed s
    | .exhausted => .exhausted
  | _, current, s => .found s.input.current s
  | _, peek, s => .found s.input.peek s
  | _, advance, s => .found () s.advance
  | _, fail f, s => .failed (s.report f)
  | _, exhausted, _ => .exhausted
  | _, attempt r, s =>
    match r.run s with
    | .found a s => .found (some a) s
    | .failed s => .found none s
    | .exhausted => .exhausted
  | _, traced name r, s =>
    match r.run (s.enter name) with
    | .found a s => .found a (s.leave name)
    | .failed s => .failed (s.leave name)
    | .exhausted => .exhausted
  | _, silent r, s => r.run s

instance : CoeFun (Rule α) (fun _ => State → Outcome α) := ⟨run⟩

instance : Monad Rule where
  pure := .pure
  bind := .bind

/-- Moves on to the next token, which has to be of the given kind. -/
def expect (want : Token.Kind) : Rule Token := do
  let next ← peek
  if next.kind = want then
    advance
    pure next
  else fail (.unexpected want next.kind)

/-- Moves on to the next token if it is of the given kind. -/
def accept (kind : Token.Kind) : Rule Bool := do
  let next ← peek
  if next.kind = kind then
    advance
    pure true
  else pure false

/-- Repeats `round` until it gives a result on the right, for at most `bound` rounds. -/
def iterate (round : α → Rule (α ⊕ β)) : Nat → α → Rule β
  | 0, _ => exhausted
  | bound + 1, a => do
    match ← round a with
    | .inl a => iterate round bound a
    | .inr b => pure b

end Rule

end Monkey.Grammar
