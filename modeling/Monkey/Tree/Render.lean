import Monkey.Tree.Basic

/-!
# The text of a tree

`render` writes a tree in a form close to source, with the grouping of operators made plain by
parentheses. Statements follow each other without anything between them.

A hole has no text. In some places it is left out: the value of a binding, the value that is
returned, and the expression of an expression statement. A hole anywhere else means that the tree
as a whole has no text, which is what `isPrintable` decides; `render?` puts the two together.
-/

namespace Monkey

/-- The names of parameters, with a comma between each two. -/
def renderParams (params : List Ident) : Bytes :=
  Bytes.join (utf8 ", ") (params.map Ident.name)

mutual

def Expr.render : Expr → Bytes
  | .missing => []
  | .ident id => id.name
  | .bool token _ => token.literal
  | .int token _ => token.literal
  | .unary _ op right => utf8 "(" ++ op ++ right.render ++ utf8 ")"
  | .binary _ op left right =>
    utf8 "(" ++ left.render ++ utf8 " " ++ op ++ utf8 " " ++ right.render ++ utf8 ")"
  | .cond _ condition consequence none =>
    utf8 "if" ++ condition.render ++ utf8 " " ++ consequence.render
  | .cond _ condition consequence (some alternative) =>
    utf8 "if" ++ condition.render ++ utf8 " " ++ consequence.render ++ utf8 "else " ++
      alternative.render
  | .function token params body =>
    token.literal ++ utf8 "(" ++ renderParams params ++ utf8 ") " ++ body.render
  | .call _ callee args =>
    callee.render ++ utf8 "(" ++ Bytes.join (utf8 ", ") (Expr.renderEach args) ++ utf8 ")"
termination_by structural e => e

def Expr.renderEach : List Expr → List Bytes
  | [] => []
  | e :: es => e.render :: Expr.renderEach es
termination_by structural es => es

def Stmt.render : Stmt → Bytes
  | .missing => []
  | .bind token id value =>
    token.literal ++ utf8 " " ++ id.name ++ utf8 " = " ++ value.render ++ utf8 ";"
  | .ret token value => token.literal ++ utf8 " " ++ value.render ++ utf8 ";"
  | .expr _ value => value.render
  | .block body => body.render
termination_by structural s => s

def Stmt.renderAll : List Stmt → Bytes
  | [] => []
  | s :: ss => s.render ++ Stmt.renderAll ss
termination_by structural ss => ss

def Block.render : Block → Bytes
  | .mk _ stmts => Stmt.renderAll stmts
termination_by structural b => b

end

mutual

/-- Whether every part of an expression that its text needs is there. -/
def Expr.isPrintable : Expr → Bool
  | .missing => false
  | .ident _ => true
  | .bool _ _ => true
  | .int _ _ => true
  | .unary _ _ right => right.isPrintable
  | .binary _ _ left right => left.isPrintable && right.isPrintable
  | .cond _ condition consequence none => condition.isPrintable && consequence.isPrintable
  | .cond _ condition consequence (some alternative) =>
    condition.isPrintable && consequence.isPrintable && alternative.isPrintable
  | .function _ _ body => body.isPrintable
  | .call _ callee args => callee.isPrintable && Expr.allPrintable args
termination_by structural e => e

def Expr.allPrintable : List Expr → Bool
  | [] => true
  | e :: es => e.isPrintable && Expr.allPrintable es
termination_by structural es => es

def Stmt.isPrintable : Stmt → Bool
  | .missing => false
  | .bind _ _ value => value.isMissing || value.isPrintable
  | .ret _ value => value.isMissing || value.isPrintable
  | .expr _ value => value.isMissing || value.isPrintable
  | .block body => body.isPrintable
termination_by structural s => s

def Stmt.allPrintable : List Stmt → Bool
  | [] => true
  | s :: ss => s.isPrintable && Stmt.allPrintable ss
termination_by structural ss => ss

def Block.isPrintable : Block → Bool
  | .mk _ stmts => Stmt.allPrintable stmts
termination_by structural b => b

end

namespace Program

def render (p : Program) : Bytes := Stmt.renderAll p.stmts

def isPrintable (p : Program) : Bool := Stmt.allPrintable p.stmts

end Program

namespace Node

def render : Node → Bytes
  | program p => p.render
  | stmt s => s.render
  | expr e => e.render

def isPrintable : Node → Bool
  | program p => p.isPrintable
  | stmt s => s.isPrintable
  | expr e => e.isPrintable

/-- The text of a tree that has one. -/
def render? (n : Node) : Option Bytes :=
  if n.isPrintable then some n.render else none

end Node

end Monkey
