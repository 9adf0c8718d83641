import Monkey.Tree.Basic
import Monkey.Text.Quoted

/-!
# Dumps

A dump shows a tree with every field of every node, two spaces further in for each level. It is
built in two steps: `Dump` is a layout of named fields, lists and plain values, and `Dump.lines`
writes it out. A line other than the first of its kind starts with the indentation of its level,
and a comma stands after every field and every item but the last.
-/

namespace Monkey

/-- The layout of a dump. `record` and `list` are written between an opening and a closing text. -/
inductive Dump where
  | leaf (text : Bytes)
  | record (opening closing : Bytes) (fields : List (String × Dump))
  | list (opening : Bytes) (items : List Dump)

namespace Dump

def indent (level : Nat) : Bytes := (List.replicate level (utf8 "  ")).flatten

mutual

/-- The text of a dump at the given level, without indentation before its first line. -/
def write (level : Nat) : Dump → Bytes
  | leaf text => text
  | record opening closing fields =>
    opening ++ utf8 "\n" ++ writeFields (level + 1) fields ++ indent level ++ closing
  | list opening items =>
    opening ++ utf8 "\n" ++ writeItems (level + 1) items ++ indent level ++ utf8 "\x7d"
termination_by structural d => d

def writeFields (level : Nat) : List (String × Dump) → Bytes
  | [] => []
  | (name, value) :: rest =>
    indent level ++ utf8 name ++ utf8 ": " ++ write level value ++
      (if rest.isEmpty then utf8 "\n" else utf8 ",\n") ++ writeFields level rest
termination_by structural fields => fields

def writeItems (level : Nat) : List Dump → Bytes
  | [] => []
  | item :: rest =>
    indent level ++ write level item ++
      (if rest.isEmpty then utf8 "\n" else utf8 ",\n") ++ writeItems level rest
termination_by structural items => items

end

/-- A node of the tree. -/
def node (type : String) (fields : List (String × Dump)) : Dump :=
  record (utf8 "(*ast." ++ utf8 type ++ utf8 ")(\x7b") (utf8 "\x7d)") fields

/-- A part of a node that is kept by value. -/
def part (type : String) (fields : List (String × Dump)) : Dump :=
  record (utf8 "(" ++ utf8 type ++ utf8 ") \x7b") (utf8 "\x7d") fields

/-- The length of something that is not empty. -/
def lengthNote (n : Nat) : Bytes :=
  if n = 0 then [] else utf8 "(len=" ++ Text.Decimal.ofNat n ++ utf8 ") "

def items (type : String) (values : List Dump) : Dump :=
  list (utf8 "([]" ++ utf8 type ++ utf8 ") " ++ lengthNote values.length ++ utf8 "\x7b") values

def text (type : String) (value : Bytes) : Dump :=
  leaf (utf8 "(" ++ utf8 type ++ utf8 ") " ++ lengthNote value.length ++ Text.quote value)

def number (type : String) (n : Int) : Dump :=
  leaf (utf8 "(" ++ utf8 type ++ utf8 ") " ++ Text.Decimal.ofInt n)

/-- A child that is not there. -/
def absent (type : String) : Dump :=
  leaf (utf8 "(" ++ utf8 type ++ utf8 ")(<nil>)")

end Dump

def Token.dump (t : Token) : Dump :=
  .part "token.Token"
    [("Type", .text "token.TokenType" t.kind.text),
     ("Literal", .text "string" t.literal),
     ("Pos", .part "token.Position"
       [("Line", .number "int" t.pos.line), ("Column", .number "int" t.pos.column)])]

def Ident.dump (id : Ident) : Dump :=
  .node "Identifier" [("Token", id.token.dump), ("Value", .text "string" id.name)]

mutual

def Expr.dump : Expr → Dump
  | .missing => .leaf (utf8 "(ast.Expression) <nil>")
  | .ident id => id.dump
  | .bool token value =>
    .node "Boolean"
      [("Token", token.dump), ("Value", .leaf (utf8 (if value then "(bool) true" else "(bool) false")))]
  | .int token value =>
    .node "IntegerLiteral" [("Token", token.dump), ("Value", .number "int64" value.toInt)]
  | .unary token op right =>
    .node "PrefixExpression"
      [("Token", token.dump), ("Operator", .text "string" op), ("Right", right.dump)]
  | .binary token op left right =>
    .node "InfixExpression"
      [("Token", token.dump), ("Left", left.dump), ("Operator", .text "string" op),
       ("Right", right.dump)]
  | .cond token condition consequence none =>
    .node "IfExpression"
      [("Token", token.dump), ("Condition", condition.dump), ("Consequence", consequence.dump),
       ("Alternative", .absent "*ast.BlockStatement")]
  | .cond token condition consequence (some alternative) =>
    .node "IfExpression"
      [("Token", token.dump), ("Condition", condition.dump), ("Consequence", consequence.dump),
       ("Alternative", alternative.dump)]
  | .function token params body =>
    .node "FunctionLiteral"
      [("Token", token.dump), ("Parameters", .items "*ast.Identifier" (params.map Ident.dump)),
       ("Body", body.dump)]
  | .call token callee args =>
    .node "CallExpression"
      [("Token", token.dump), ("Function", callee.dump),
       ("Arguments", .items "ast.Expression" (Expr.dumpEach args))]
termination_by structural e => e

def Expr.dumpEach : List Expr → List Dump
  | [] => []
  | e :: es => e.dump :: Expr.dumpEach es
termination_by structural es => es

def Stmt.dump : Stmt → Dump
  | .missing => .leaf (utf8 "(ast.Statement) <nil>")
  | .bind token id value =>
    .node "LetStatement" [("Token", token.dump), ("Name", id.dump), ("Value", value.dump)]
  | .ret token value =>
    .node "ReturnStatement" [("Token", token.dump), ("ReturnValue", value.dump)]
  | .expr token value =>
    .node "ExpressionStatement" [("Token", token.dump), ("Expression", value.dump)]
  | .block body => body.dump
termination_by structural s => s

def Stmt.dumpEach : List Stmt → List Dump
  | [] => []
  | s :: ss => s.dump :: Stmt.dumpEach ss
termination_by structural ss => ss

def Block.dump : Block → Dump
  | .mk token stmts =>
    .node "BlockStatement"
      [("Token", token.dump), ("Statements", .items "ast.Statement" (Stmt.dumpEach stmts))]
termination_by structural b => b

end

/-- The dump of a program, on lines of its own. -/
def Program.dump (p : Program) : Bytes :=
  (Dump.node "Program" [("Statements", .items "ast.Statement" (Stmt.dumpEach p.stmts))]).write 0
    ++ utf8 "\n"

end Monkey
