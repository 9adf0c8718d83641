import Mathlib.Tactic.Common
import Monkey.Proofs.Evaluation.Invariant
import Monkey.Tree.Walk

/-!
# What a walk meets

A walk that enters a node meets everything that it would meet from one of the operands of the
node, and below a function literal everything that it would meet from its body.
-/

namespace Monkey

variable {enter : Node → Bool} {k : Node}

theorem Expr.mem_walkEach {es : List Expr} :
    k ∈ Expr.walkEach enter es ↔ ∃ e ∈ es, k ∈ e.walk enter := by
  induction es with
  | nil => simp [Expr.walkEach]
  | cons e es ih => simp [Expr.walkEach, ih]

theorem Stmt.mem_walkEach {ss : List Stmt} :
    k ∈ Stmt.walkEach enter ss ↔ ∃ s ∈ ss, k ∈ s.walk enter := by
  induction ss with
  | nil => simp [Stmt.walkEach]
  | cons s ss ih => simp [Stmt.walkEach, ih]

namespace Node

/-- A walk starts with the node itself, unless that is a hole. -/
theorem mem_walk_self {n : Node} (h : n.kind?.isSome = true) : n ∈ n.walk enter := by
  cases n with
  | program p => exact .head _
  | stmt s =>
      cases s with
      | missing => cases h
      | block body =>
          cases body with
          | mk token stmts => exact .head _
      | _ => exact .head _
  | expr e =>
      cases e with
      | missing => cases h
      | cond token condition consequence alternative => cases alternative <;> exact .head _
      | _ => exact .head _

theorem mem_walk_of_operand {n m : Node} (hn : enter n = true) (hm : m ∈ n.operands)
    (hk : k ∈ m.walk enter) : k ∈ n.walk enter := by
  cases n with
  | program p =>
      obtain ⟨s, hs, rfl⟩ := List.mem_map.mp hm
      simp only [walk, hn, if_true]
      exact .tail _ (Stmt.mem_walkEach.mpr ⟨s, hs, hk⟩)
  | stmt s =>
      cases s with
      | missing => cases hm
      | block body =>
          cases body with
          | mk token stmts =>
              obtain ⟨s, hs, rfl⟩ := List.mem_map.mp hm
              simp only [walk, Stmt.walk, Block.walk, hn, if_true]
              exact .tail _ (Stmt.mem_walkEach.mpr ⟨s, hs, hk⟩)
      | _ =>
          obtain rfl := List.mem_singleton.mp hm
          simp_all [walk, Stmt.walk]
  | expr e =>
      cases e with
      | unary token op right =>
          obtain rfl := List.mem_singleton.mp hm
          simp_all [walk, Expr.walk]
      | binary token op left right =>
          simp only [operands, List.mem_cons, List.not_mem_nil, or_false] at hm
          rcases hm with rfl | rfl <;> simp_all [walk, Expr.walk]
      | cond token condition consequence alternative =>
          cases alternative with
          | none =>
              simp only [operands, Option.toList_none, List.map_nil, List.mem_cons,
                List.not_mem_nil, or_false] at hm
              rcases hm with rfl | rfl <;> simp_all [walk, Expr.walk, Stmt.walk]
          | some block =>
              simp only [operands, Option.toList_some, List.map_cons, List.map_nil, List.mem_cons,
                List.not_mem_nil, or_false] at hm
              rcases hm with rfl | rfl | rfl <;> simp_all [walk, Expr.walk, Stmt.walk]
      | call token callee args =>
          simp only [walk, Expr.walk, hn, if_true]
          rcases List.mem_cons.mp hm with rfl | harg
          · exact .tail _ (List.mem_append_left _ hk)
          · obtain ⟨e, he, rfl⟩ := List.mem_map.mp harg
            exact .tail _ (List.mem_append_right _ (Expr.mem_walkEach.mpr ⟨e, he, hk⟩))
      | _ => cases hm

theorem mem_walk_of_body {token : Token} {params : List Ident} {body : Block}
    (hn : enter (.expr (.function token params body)) = true) (hk : k ∈ body.walk enter) :
    k ∈ (expr (.function token params body)).walk enter := by
  simp_all [walk, Expr.walk]

end Node

end Monkey
