import Monkey.Tree.Basic

/-!
# Outlines

The outline of a tree is one line of nested parentheses. Every node is given by a short name, the
place of its token, and what it keeps, followed by its children.
-/

namespace Monkey

/-- A parenthesis of the given parts, with a space between each two. -/
def outlineOf (parts : List Bytes) : Bytes :=
  utf8 "(" ++ Bytes.join (utf8 " ") parts ++ utf8 ")"

/-- The short name of a node with the place of its token. -/
def outlineHead (name : String) (token : Token) : Bytes :=
  utf8 name ++ utf8 "@" ++ token.pos.text

def Ident.outline (id : Ident) : Bytes :=
  outlineOf [outlineHead "ident" id.token, id.name]

mutual

def Expr.outline : Expr → Bytes
  | .missing => utf8 "nil"
  | .ident id => id.outline
  | .bool token value =>
    outlineOf [outlineHead "bool" token, utf8 (if value then "true" else "false")]
  | .int token value =>
    outlineOf [outlineHead "int" token, token.literal, Text.Decimal.ofInt value.toInt]
  | .unary token op right => outlineOf [outlineHead "prefix" token, op, right.outline]
  | .binary token op left right =>
    outlineOf [outlineHead "infix" token, op, left.outline, right.outline]
  | .cond token condition consequence none =>
    outlineOf [outlineHead "if" token, condition.outline, consequence.outline]
  | .cond token condition consequence (some alternative) =>
    outlineOf [outlineHead "if" token, condition.outline, consequence.outline,
      alternative.outline]
  | .function token params body =>
    outlineOf [outlineHead "fn" token, outlineOf (utf8 "params" :: params.map Ident.outline),
      body.outline]
  | .call token callee args =>
    outlineOf (outlineHead "call" token :: callee.outline :: Expr.outlineEach args)
termination_by structural e => e

def Expr.outlineEach : List Expr → List Bytes
  | [] => []
  | e :: es => e.outline :: Expr.outlineEach es
termination_by structural es => es

def Stmt.outline : Stmt → Bytes
  | .missing => utf8 "nil"
  | .bind token id value => outlineOf [outlineHead "let" token, id.outline, value.outline]
  | .ret token value => outlineOf [outlineHead "return" token, value.outline]
  | .expr token value => outlineOf [outlineHead "expr" token, value.outline]
  | .block body => body.outline
termination_by structural s => s

def Stmt.outlineEach : List Stmt → List Bytes
  | [] => []
  | s :: ss => s.outline :: Stmt.outlineEach ss
termination_by structural ss => ss

def Block.outline : Block → Bytes
  | .mk token stmts => outlineOf (outlineHead "block" token :: Stmt.outlineEach stmts)
termination_by structural b => b

end

def Program.outline (p : Program) : Bytes :=
  outlineOf (utf8 "program" :: Stmt.outlineEach p.stmts)

end Monkey
