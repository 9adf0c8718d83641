import Monkey.Tree.Basic

/-!
# The tokens of a tree

The tokens that the nodes of a tree hold, in the order of the source: an operator stands between
its operands and a call between the callee and the arguments. The token of an expression statement
is that of a node below it and is not listed a second time.
-/

namespace Monkey

mutual

def Expr.tokens : Expr → List Token
  | .missing => []
  | .ident id => [id.token]
  | .bool token _ => [token]
  | .int token _ => [token]
  | .unary token _ right => token :: right.tokens
  | .binary token _ left right => left.tokens ++ token :: right.tokens
  | .cond token condition consequence none => token :: (condition.tokens ++ consequence.tokens)
  | .cond token condition consequence (some alternative) =>
    token :: (condition.tokens ++ (consequence.tokens ++ alternative.tokens))
  | .function token params body => token :: (params.map Ident.token ++ body.tokens)
  | .call token callee args => callee.tokens ++ token :: Expr.tokensEach args
termination_by structural e => e

def Expr.tokensEach : List Expr → List Token
  | [] => []
  | e :: es => e.tokens ++ Expr.tokensEach es
termination_by structural es => es

def Stmt.tokens : Stmt → List Token
  | .missing => []
  | .bind token id value => token :: id.token :: value.tokens
  | .ret token value => token :: value.tokens
  | .expr _ value => value.tokens
  | .block body => body.tokens
termination_by structural s => s

def Stmt.tokensEach : List Stmt → List Token
  | [] => []
  | s :: ss => s.tokens ++ Stmt.tokensEach ss
termination_by structural ss => ss

def Block.tokens : Block → List Token
  | .mk token stmts => token :: Stmt.tokensEach stmts
termination_by structural b => b

end

def Program.tokens (p : Program) : List Token := Stmt.tokensEach p.stmts

end Monkey
