import Monkey.Grammar.Level
import Monkey.Grammar.Rule
import Monkey.Tree.Basic

/-!
# The grammar

A program is a list of statements. A statement is a binding, a return or an expression, each with
an optional semicolon after it. An expression is an operand with the operators after it that bind
more strongly than the level it is read at, so that operators of one level group to the left.

Every rule that needs an expression takes the rule for expressions as its argument `sub`, and
every rule with a loop takes a bound for it. `expression` closes the circle: it recurses on a bound
for the nesting, and hands what is left of that bound to the loops as well. Each nested expression
starts at least one token further on, so the number of tokens bounds both.

A statement that fails is dropped: the list goes on after the token at which the failure left the
stream. A block that has not been closed ends with the input.
-/

namespace Monkey.Grammar

open Rule

/-- The rule for expressions, by the level at which one is read. -/
abbrev ExprRule := Level → Rule Expr

def binding (sub : ExprRule) : Rule Stmt := traced .binding do
  let token ← current
  let name ← expect .ident
  let _ ← expect .assign
  advance
  let value ← sub .lowest
  let _ ← accept .semicolon
  pure (.bind token ⟨name, name.literal⟩ value)

def returning (sub : ExprRule) : Rule Stmt := traced .ret do
  let token ← current
  advance
  let value ← sub .lowest
  let _ ← accept .semicolon
  pure (.ret token value)

def exprStmt (sub : ExprRule) : Rule Stmt := traced .exprStmt do
  let token ← current
  let value ← sub .lowest
  let _ ← accept .semicolon
  pure (.expr token value)

def statement (sub : ExprRule) : Rule Stmt := silent do
  let token ← current
  match token.kind with
  | .let => binding sub
  | .return => returning sub
  | _ => exprStmt sub

/-- One round of a list of statements, which ends before a token that `stop` picks. The
statements so far are held newest first. -/
def statementRound (sub : ExprRule) (stop : Token.Kind → Bool) (done : List Stmt) :
    Rule (List Stmt ⊕ List Stmt) := do
  let token ← current
  if stop token.kind then pure (.inr done.reverse)
  else
    let stmt? ← attempt (statement sub)
    advance
    pure (.inl (match stmt? with
      | some stmt => stmt :: done
      | none => done))

def statements (sub : ExprRule) (bound : Nat) (stop : Token.Kind → Bool) : Rule (List Stmt) :=
  iterate (statementRound sub stop) bound []

/-- A block closes with its brace, or with the input. -/
def closesBlock (kind : Token.Kind) : Bool := kind = .rbrace || kind = .eof

def block (sub : ExprRule) (bound : Nat) : Rule Block := traced .block do
  let token ← current
  advance
  let stmts ← statements sub bound closesBlock
  pure (.mk token stmts)

def integer : Rule Expr := traced .integer do
  let token ← current
  match Text.Decimal.int64? token.literal with
  | some value => pure (.int token value)
  | none => fail (.badInteger token.literal)

def unary (sub : ExprRule) : Rule Expr := traced .unary do
  let token ← current
  advance
  let right ← sub .unary
  pure (.unary token token.literal right)

/-- An expression in parentheses, which leave no trace in the tree. -/
def group (sub : ExprRule) : Rule Expr := silent do
  advance
  let inner ← sub .lowest
  let _ ← expect .rparen
  pure inner

def cond (sub : ExprRule) (bound : Nat) : Rule Expr := traced .cond do
  let token ← current
  let _ ← expect .lparen
  advance
  let condition ← sub .lowest
  let _ ← expect .rparen
  let _ ← expect .lbrace
  let consequence ← block sub bound
  if ← accept .else then
    let _ ← expect .lbrace
    let alternative ← block sub bound
    pure (.cond token condition consequence (some alternative))
  else pure (.cond token condition consequence none)

/-- One round of the parameters after the first. -/
def paramRound (done : List Ident) : Rule (List Ident ⊕ List Ident) := do
  if ← accept .comma then
    let name ← expect .ident
    pure (.inl (⟨name, name.literal⟩ :: done))
  else
    let _ ← expect .rparen
    pure (.inr done.reverse)

/-- The parameters of a function and the parenthesis after them. -/
def params (bound : Nat) : Rule (List Ident) := silent do
  if ← accept .rparen then pure []
  else
    let name ← expect .ident
    iterate paramRound bound [⟨name, name.literal⟩]

def function (sub : ExprRule) (bound : Nat) : Rule Expr := traced .function do
  let token ← current
  let _ ← expect .lparen
  let ids ← params bound
  let _ ← expect .lbrace
  let body ← block sub bound
  pure (.function token ids body)

/-- One round of the arguments after the first. -/
def argRound (sub : ExprRule) (done : List Expr) : Rule (List Expr ⊕ List Expr) := do
  if ← accept .comma then
    advance
    let arg ← sub .lowest
    pure (.inl (arg :: done))
  else
    let _ ← expect .rparen
    pure (.inr done.reverse)

/-- The arguments of a call and the parenthesis after them. -/
def args (sub : ExprRule) (bound : Nat) : Rule (List Expr) := silent do
  if ← accept .rparen then pure []
  else
    advance
    let arg ← sub .lowest
    iterate (argRound sub) bound [arg]

def call (sub : ExprRule) (bound : Nat) (callee : Expr) : Rule Expr := traced .call do
  let token ← current
  let list ← args sub bound
  pure (.call token callee list)

def binary (sub : ExprRule) (left : Expr) : Rule Expr := traced .binary do
  let token ← current
  advance
  let right ← sub (Level.ofKind token.kind)
  pure (.binary token token.literal left right)

/-- What an expression starts with. -/
def operand (sub : ExprRule) (bound : Nat) : Rule Expr := do
  let token ← current
  match token.kind with
  | .ident => silent (pure (.ident ⟨token, token.literal⟩))
  | .int => integer
  | .bang => unary sub
  | .minus => unary sub
  | .true => silent (pure (.bool token true))
  | .false => silent (pure (.bool token false))
  | .lparen => group sub
  | .if => cond sub bound
  | .function => function sub bound
  | kind => fail (.noExpression kind)

/-- One round of the operators after an operand: the next one is taken up if it binds more
strongly than `level`. -/
def operatorRound (sub : ExprRule) (bound : Nat) (level : Level) (left : Expr) :
    Rule (Expr ⊕ Expr) := do
  let next ← peek
  if level < Level.ofKind next.kind then
    advance
    let longer ← if next.kind = .lparen then call sub bound left else binary sub left
    pure (.inl longer)
  else pure (.inr left)

/-- The rule for expressions, with at most `bound` of them inside each other. -/
def expression : Nat → ExprRule
  | 0, _ => exhausted
  | bound + 1, level => traced .expression do
    let left ← operand (expression bound) bound
    iterate (operatorRound (expression bound) bound level) bound left

def program (bound : Nat) : Rule Program := silent do
  let stmts ← statements (expression bound) bound fun kind => kind = .eof
  pure ⟨stmts⟩

/-- A bound for the nesting and for the loops that no stream meets: there are at most as many
rounds, and at most as many expressions inside each other, as there are tokens. -/
def boundFor (input : Token.Stream) : Nat := input.items.length + 1

/-- What comes of reading a stream: a program, which lacks the statements that failed, the faults
in the order in which they were met, and the trace. -/
structure Parsed where
  program : Program
  faults : List Fault
  trace : List TraceNote

def parse (input : Token.Stream) (tracing : Bool) : Parsed :=
  match program (boundFor input) (.ofStream tracing input) with
  | .found p s => ⟨p, s.faults.reverse, s.notes.reverse⟩
  | .failed s => ⟨⟨[]⟩, s.faults.reverse, s.notes.reverse⟩
  | .exhausted => ⟨⟨[]⟩, [], []⟩

def parseSource (source : Bytes) (tracing : Bool) : Parsed :=
  parse (.ofSource source) tracing

end Monkey.Grammar
