import Monkey.Tree.Basic

/-!
# Walking a tree

`walk` lists the nodes of a tree as a walk from the root meets them, a node before what is below
it and children in the order of the source. The walk asks `enter` at every node whether to go on
below it. Holes are passed over.
-/

namespace Monkey

mutual

def Expr.walk (enter : Node → Bool) : Expr → List Node
  | .missing => []
  | .ident id => [.expr (.ident id)]
  | .bool token value => [.expr (.bool token value)]
  | .int token value => [.expr (.int token value)]
  | .unary token op right =>
    let here := Node.expr (.unary token op right)
    here :: if enter here then right.walk enter else []
  | .binary token op left right =>
    let here := Node.expr (.binary token op left right)
    here :: if enter here then left.walk enter ++ right.walk enter else []
  | .cond token condition consequence none =>
    let here := Node.expr (.cond token condition consequence none)
    here :: if enter here then condition.walk enter ++ consequence.walk enter else []
  | .cond token condition consequence (some alternative) =>
    let here := Node.expr (.cond token condition consequence (some alternative))
    here :: if enter here then
      condition.walk enter ++ consequence.walk enter ++ alternative.walk enter else []
  | .function token params body =>
    let here := Node.expr (.function token params body)
    here :: if enter here then
      params.map (fun id => Node.expr (.ident id)) ++ body.walk enter else []
  | .call token callee args =>
    let here := Node.expr (.call token callee args)
    here :: if enter here then callee.walk enter ++ Expr.walkEach enter args else []
termination_by structural e => e

def Expr.walkEach (enter : Node → Bool) : List Expr → List Node
  | [] => []
  | e :: es => e.walk enter ++ Expr.walkEach enter es
termination_by structural es => es

def Stmt.walk (enter : Node → Bool) : Stmt → List Node
  | .missing => []
  | .bind token id value =>
    let here := Node.stmt (.bind token id value)
    here :: if enter here then Node.expr (.ident id) :: value.walk enter else []
  | .ret token value =>
    let here := Node.stmt (.ret token value)
    here :: if enter here then value.walk enter else []
  | .expr token value =>
    let here := Node.stmt (.expr token value)
    here :: if enter here then value.walk enter else []
  | .block body => body.walk enter
termination_by structural s => s

def Stmt.walkEach (enter : Node → Bool) : List Stmt → List Node
  | [] => []
  | s :: ss => s.walk enter ++ Stmt.walkEach enter ss
termination_by structural ss => ss

def Block.walk (enter : Node → Bool) : Block → List Node
  | .mk token stmts =>
    let here := Node.stmt (.block (.mk token stmts))
    here :: if enter here then Stmt.walkEach enter stmts else []
termination_by structural b => b

end

namespace Node

def walk (enter : Node → Bool) : Node → List Node
  | program p => program p :: if enter (program p) then Stmt.walkEach enter p.stmts else []
  | stmt s => s.walk enter
  | expr e => e.walk enter

/-- How many nodes of each kind a tree has, for the kinds that occur, in the order of their
names. -/
def census (n : Node) : List (String × Nat) :=
  let kinds := (n.walk fun _ => true).filterMap kind?
  let counts := Kind.all.map fun kind => (kind.name, kinds.count kind)
  (counts.filter fun entry => entry.2 ≠ 0).mergeSort fun a b => a.1 ≤ b.1

end Node

end Monkey
