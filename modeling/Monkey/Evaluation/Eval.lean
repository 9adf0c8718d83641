import Monkey.Evaluation.Action
import Monkey.Evaluation.Operator

/-!
# Evaluation

`eval` gives the result of a node in a scope. An expression has a value. A statement has one
unless it is a binding, and a list of statements has the result of its last one. A return or an
error ends a list early: a block hands it on as it is, and a program takes the value out of the
return. Where a block stands for an expression, having no result means null.

`step` says what one node does, given what `sub` does for the nodes below it and for the bodies of
the functions called; `eval` repeats it with a bound for the nesting. Blocks make no scope of
their own. A call makes one inside the scope in which the function was made.
-/

namespace Monkey.Evaluation

open Monkey.Evaluation.Action

/-- Evaluation of a node in a scope. -/
abbrev Evaluator := ScopeId → Node → Action (Option Value)

/-- Gives the value of `sub` to `use`, unless it is an error, which is the result then. -/
def operand (sub : Action (Option Value)) (use : Value → Action (Option Value)) :
    Action (Option Value) := do
  match ← sub with
  | none => stuck
  | some (.error fault) => pure (some (.error fault))
  | some value => use value

/-- Whether a result ends a list of statements. -/
def endsList : Option Value → Bool
  | some (.ret _) => true
  | some (.error _) => true
  | _ => false

/-- The statements of a list in turn, up to the first that ends it. `last` is the result so far. -/
def sequence (sub : Stmt → Action (Option Value)) : List Stmt → Option Value →
    Action (Option Value)
  | [], last => pure last
  | stmt :: rest, _ => do
    let result ← sub stmt
    if endsList result then pure result else sequence sub rest result

/-- The values of arguments from left to right, up to the first error. Those so far are held
newest first. -/
def arguments (sub : Expr → Action (Option Value)) : List Expr → List Value →
    Action (Value.Fault ⊕ List Value)
  | [], done => pure (.inr done.reverse)
  | expr :: rest, done => do
    match ← sub expr with
    | none => stuck
    | some (.error fault) => pure (.inl fault)
    | some value => arguments sub rest (value :: done)

/-- The value of a program: what a return carries, or the result itself. -/
def programResult : Option Value → Option Value
  | some (.ret inner) => some inner
  | result => result

/-- The value of a call: what a return carries, the result itself, or null. -/
def callResult : Option Value → Value
  | some (.ret inner) => inner
  | some value => value
  | none => .null

/-- The value of a block that stands for an expression. -/
def blockValue : Option Value → Value
  | some value => value
  | none => .null

def apply (sub : Evaluator) (callee : Value) (args : List Value) : Action (Option Value) :=
  match callee with
  | .function params body scope =>
    if args.length = params.length then do
      let inner ← enclose scope ((params.map Ident.name).zip args)
      let result ← sub inner (.stmt (.block body))
      pure (some (callResult result))
    else pure (some (.error (.wrongArity args.length params.length)))
  | callee => pure (some (.error (.notAFunction callee.kind)))

def evalExpr (sub : Evaluator) (scope : ScopeId) : Expr → Action (Option Value)
  | .missing => pure (some (.error .unknownNode))
  | .ident id => do
    match ← lookup? scope id.name with
    | some value => pure (some value)
    | none => pure (some (.error (.unbound id.name)))
  | .bool _ value => pure (some (.ofBool value))
  | .int _ value => pure (some (.int value))
  | .unary _ op right =>
    operand (sub scope (.expr right)) fun r => pure (some (.unary op r))
  | .binary _ op left right =>
    operand (sub scope (.expr left)) fun l =>
      operand (sub scope (.expr right)) fun r => pure (some (.binary op l r))
  | .cond _ condition consequence alternative =>
    operand (sub scope (.expr condition)) fun c =>
      if c.isTruthy then do
        let result ← sub scope (.stmt (.block consequence))
        pure (some (blockValue result))
      else match alternative with
        | some block => do
          let result ← sub scope (.stmt (.block block))
          pure (some (blockValue result))
        | none => pure (some .null)
  | .function _ params body => pure (some (.function params body scope))
  | .call _ callee args =>
    operand (sub scope (.expr callee)) fun f => do
      match ← arguments (fun e => sub scope (.expr e)) args [] with
      | .inl fault => pure (some (.error fault))
      | .inr values => apply sub f values

def evalStmt (sub : Evaluator) (scope : ScopeId) : Stmt → Action (Option Value)
  | .missing => pure (some (.error .unknownNode))
  | .bind _ id value =>
    operand (sub scope (.expr value)) fun v => do
      note (.bound id.name v.kind)
      bindName scope id.name v
      pure none
  | .ret _ value => operand (sub scope (.expr value)) fun v => pure (some (.ret v))
  | .expr _ value => sub scope (.expr value)
  | .block body => sequence (fun s => sub scope (.stmt s)) body.stmts none

def evalProgram (sub : Evaluator) (scope : ScopeId) (program : Program) :
    Action (Option Value) := do
  let result ← sequence (fun s => sub scope (.stmt s)) program.stmts none
  pure (programResult result)

/-- One node, given what `sub` does for the nodes below it. -/
def step (sub : Evaluator) : Evaluator := fun scope node => do
  note (.visit node.kind?)
  match node with
  | .program program => evalProgram sub scope program
  | .stmt stmt => evalStmt sub scope stmt
  | .expr expr => evalExpr sub scope expr

/-- Evaluation with at most `bound` nodes inside each other, the bodies of called functions
included. -/
def eval : Nat → Evaluator
  | 0 => fun _ _ => exhausted
  | bound + 1 => step (eval bound)

end Monkey.Evaluation
