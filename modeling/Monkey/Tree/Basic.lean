import Monkey.Token.Basic

/-!
# Syntax trees

A tree is made of expressions, statements and blocks. Every node keeps the token it was made from
beside what it means: the token says where the node stands and how it was spelled, and the further
fields are what evaluation goes by. Operators are kept as the text of their token.

`Expr.missing` and `Stmt.missing` stand for a child that is not there. The grammar never leaves
such a hole, but a tree put together by hand may have one, and every operation says what it makes
of it. The only child that may be absent in a finished tree is the alternative of a condition.
-/

namespace Monkey

structure Ident where
  token : Token
  name : Bytes
  deriving DecidableEq, Repr

mutual

inductive Expr where
  | missing
  | ident (id : Ident)
  | bool (token : Token) (value : Bool)
  | int (token : Token) (value : Int64)
  | unary (token : Token) (op : Bytes) (right : Expr)
  | binary (token : Token) (op : Bytes) (left right : Expr)
  | cond (token : Token) (condition : Expr) (consequence : Block) (alternative : Option Block)
  | function (token : Token) (params : List Ident) (body : Block)
  | call (token : Token) (callee : Expr) (args : List Expr)

inductive Stmt where
  | missing
  | bind (token : Token) (id : Ident) (value : Expr)
  | ret (token : Token) (value : Expr)
  | expr (token : Token) (value : Expr)
  | block (body : Block)

inductive Block where
  | mk (token : Token) (stmts : List Stmt)

end

instance : Inhabited Expr := ⟨.missing⟩

instance : Inhabited Stmt := ⟨.missing⟩

namespace Block

def token : Block → Token
  | mk token _ => token

def stmts : Block → List Stmt
  | mk _ stmts => stmts

end Block

structure Program where
  stmts : List Stmt

instance : Inhabited Program := ⟨⟨[]⟩⟩

/-- Anything that can be walked or evaluated by itself. A block is a statement. -/
inductive Node where
  | program (program : Program)
  | stmt (stmt : Stmt)
  | expr (expr : Expr)

namespace Node

/-- The kinds of nodes. -/
inductive Kind where
  | program
  | bind
  | ret
  | exprStmt
  | block
  | ident
  | bool
  | int
  | unary
  | binary
  | cond
  | function
  | call
  deriving DecidableEq, Repr

namespace Kind

def all : List Kind :=
  [program, bind, ret, exprStmt, block, ident, bool, int, unary, binary, cond, function, call]

/-- The name of a kind in statistics and logs. -/
def name : Kind → String
  | program => "Program"
  | bind => "LetStatement"
  | ret => "ReturnStatement"
  | exprStmt => "ExpressionStatement"
  | block => "BlockStatement"
  | ident => "Identifier"
  | bool => "Boolean"
  | int => "IntegerLiteral"
  | unary => "PrefixExpression"
  | binary => "InfixExpression"
  | cond => "IfExpression"
  | function => "FunctionLiteral"
  | call => "CallExpression"

end Kind

end Node

namespace Expr

/-- The kind of an expression, and nothing for a hole. -/
def kind? : Expr → Option Node.Kind
  | missing => none
  | ident _ => some .ident
  | bool _ _ => some .bool
  | int _ _ => some .int
  | unary _ _ _ => some .unary
  | binary _ _ _ _ => some .binary
  | cond _ _ _ _ => some .cond
  | function _ _ _ => some .function
  | call _ _ _ => some .call

def isMissing : Expr → Bool
  | missing => true
  | _ => false

/-- The token an expression was made from, and nothing for a hole. -/
def token? : Expr → Option Token
  | missing => none
  | ident id => some id.token
  | bool token _ => some token
  | int token _ => some token
  | unary token _ _ => some token
  | binary token _ _ _ => some token
  | cond token _ _ _ => some token
  | function token _ _ => some token
  | call token _ _ => some token

end Expr

namespace Stmt

/-- The kind of a statement, and nothing for a hole. -/
def kind? : Stmt → Option Node.Kind
  | missing => none
  | bind _ _ _ => some .bind
  | ret _ _ => some .ret
  | expr _ _ => some .exprStmt
  | block _ => some .block

/-- The token a statement starts with, and nothing for a hole. -/
def token? : Stmt → Option Token
  | missing => none
  | bind token _ _ => some token
  | ret token _ => some token
  | expr token _ => some token
  | block body => some body.token

end Stmt

namespace Node

/-- The kind of a node, and nothing for a hole. -/
def kind? : Node → Option Kind
  | program _ => some .program
  | stmt s => s.kind?
  | expr e => e.kind?

/-- The text of the token of a node. That of a program is the one of its first statement, and the
empty text if it has none. Nothing for a hole, and for a program that starts with one. -/
def literal? : Node → Option Bytes
  | program ⟨[]⟩ => some []
  | program ⟨s :: _⟩ => s.token?.map Token.literal
  | stmt s => s.token?.map Token.literal
  | expr e => e.token?.map Token.literal

end Node

end Monkey
