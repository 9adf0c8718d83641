import Mathlib.Logic.Relation
import Monkey.Tree.Render
import Monkey.Tree.Walk

/-!
# Children and holes

`Node.children` lists what is in the places that a node has for other nodes, holes included, and
`Node.Below` says that a node is met when one goes from child to child. A tree without a hole is
`Filled`: it has a text, each of its nodes has a token, and a walk through the whole of it meets
exactly the nodes below its root.

A walk is a matter of children: it starts with the node itself and goes on with each of them.
-/

namespace Monkey.Node

/-- What is in the places of a node, in the order of the source. -/
def children : Node → List Node
  | program p => p.stmts.map stmt
  | stmt .missing => []
  | stmt (.bind _ id value) => [expr (.ident id), expr value]
  | stmt (.ret _ value) => [expr value]
  | stmt (.expr _ value) => [expr value]
  | stmt (.block body) => body.stmts.map stmt
  | expr .missing => []
  | expr (.ident _) => []
  | expr (.bool _ _) => []
  | expr (.int _ _) => []
  | expr (.unary _ _ right) => [expr right]
  | expr (.binary _ _ left right) => [expr left, expr right]
  | expr (.cond _ condition consequence alternative) =>
    expr condition :: stmt (.block consequence) ::
      alternative.toList.map fun block => stmt (.block block)
  | expr (.function _ params body) =>
    params.map (fun id => expr (.ident id)) ++ [stmt (.block body)]
  | expr (.call _ callee args) => expr callee :: args.map expr

/-- The node `m` is `n`, or a child of `n`, or a child of that, and so on. -/
def Below (n m : Node) : Prop := Relation.ReflTransGen (fun n m => m ∈ n.children) n m

/-- There is no hole in a tree. -/
def Filled (n : Node) : Prop := ∀ m, n.Below m → m.kind?.isSome = true

section Size

variable {m : Node}

theorem sizeOf_token_pos (t : Token) : 0 < sizeOf t := by
  cases t
  simp only [Token.mk.sizeOf_spec]
  omega

theorem sizeOf_lt_of_mem_stmts {ss : List Stmt} (h : m ∈ ss.map stmt) :
    sizeOf m < 1 + sizeOf ss := by
  obtain ⟨s, hs, rfl⟩ := List.mem_map.mp h
  have hlt := List.sizeOf_lt_of_mem hs
  simp only [stmt.sizeOf_spec]
  omega

theorem sizeOf_lt_of_mem_exprs {es : List Expr} (h : m ∈ es.map expr) :
    sizeOf m < 1 + sizeOf es := by
  obtain ⟨e, he, rfl⟩ := List.mem_map.mp h
  have hlt := List.sizeOf_lt_of_mem he
  simp only [expr.sizeOf_spec]
  omega

theorem sizeOf_lt_of_mem_params {ids : List Ident} (h : m ∈ ids.map fun id => expr (.ident id)) :
    sizeOf m < 2 + sizeOf ids := by
  obtain ⟨id, hid, rfl⟩ := List.mem_map.mp h
  have hlt := List.sizeOf_lt_of_mem hid
  simp only [expr.sizeOf_spec, Expr.ident.sizeOf_spec]
  omega

theorem sizeOf_lt_of_mem_children {n : Node} (h : m ∈ n.children) : sizeOf m < sizeOf n := by
  cases n with
  | program p =>
      have hlt := sizeOf_lt_of_mem_stmts h
      cases p
      simp only [program.sizeOf_spec, Program.mk.sizeOf_spec] at hlt ⊢
      omega
  | stmt s =>
      cases s with
      | missing => cases h
      | block body =>
          have hlt := sizeOf_lt_of_mem_stmts h
          cases body
          simp only [Block.stmts, stmt.sizeOf_spec, Stmt.block.sizeOf_spec,
            Block.mk.sizeOf_spec] at hlt ⊢
          omega
      | bind token id value =>
          have hpos := sizeOf_token_pos token
          simp only [children, List.mem_cons, List.not_mem_nil, or_false] at h
          rcases h with rfl | rfl <;>
            simp only [stmt.sizeOf_spec, expr.sizeOf_spec, Stmt.bind.sizeOf_spec,
              Expr.ident.sizeOf_spec] <;>
            omega
      | ret token value =>
          obtain rfl := List.mem_singleton.mp h
          simp only [stmt.sizeOf_spec, expr.sizeOf_spec, Stmt.ret.sizeOf_spec]
          omega
      | expr token value =>
          obtain rfl := List.mem_singleton.mp h
          simp only [stmt.sizeOf_spec, expr.sizeOf_spec, Stmt.expr.sizeOf_spec]
          omega
  | expr e =>
      cases e with
      | unary token op right =>
          obtain rfl := List.mem_singleton.mp h
          simp only [expr.sizeOf_spec, Expr.unary.sizeOf_spec]
          omega
      | binary token op left right =>
          simp only [children, List.mem_cons, List.not_mem_nil, or_false] at h
          rcases h with rfl | rfl <;> simp only [expr.sizeOf_spec, Expr.binary.sizeOf_spec] <;>
            omega
      | cond token condition consequence alternative =>
          have hpos := sizeOf_token_pos token
          cases alternative with
          | none =>
              simp only [children, Option.toList_none, List.map_nil, List.mem_cons,
                List.not_mem_nil, or_false] at h
              rcases h with rfl | rfl <;>
                simp only [stmt.sizeOf_spec, expr.sizeOf_spec, Stmt.block.sizeOf_spec,
                  Expr.cond.sizeOf_spec] <;>
                omega
          | some block =>
              simp only [children, Option.toList_some, List.map_cons, List.map_nil, List.mem_cons,
                List.not_mem_nil, or_false] at h
              rcases h with rfl | rfl | rfl <;>
                simp only [stmt.sizeOf_spec, expr.sizeOf_spec, Stmt.block.sizeOf_spec,
                  Expr.cond.sizeOf_spec, Option.some.sizeOf_spec] <;>
                omega
      | function token params body =>
          have hpos := sizeOf_token_pos token
          rcases List.mem_append.mp h with h | h
          · have hlt := sizeOf_lt_of_mem_params h
            simp only [expr.sizeOf_spec, Expr.function.sizeOf_spec]
            omega
          · obtain rfl := List.mem_singleton.mp h
            simp only [stmt.sizeOf_spec, expr.sizeOf_spec, Stmt.block.sizeOf_spec,
              Expr.function.sizeOf_spec]
            omega
      | call token callee args =>
          rcases List.mem_cons.mp h with rfl | h
          · simp only [expr.sizeOf_spec, Expr.call.sizeOf_spec]
            omega
          · have hlt := sizeOf_lt_of_mem_exprs h
            simp only [expr.sizeOf_spec, Expr.call.sizeOf_spec]
            omega
      | _ => cases h

end Size

/-- What carries over from the children of a node to the node itself holds of all nodes. -/
theorem childrenInduction {P : Node → Prop} (h : ∀ n : Node, (∀ m ∈ n.children, P m) → P n)
    (n : Node) : P n := by
  induction hsize : sizeOf n using Nat.strongRecOn generalizing n with
  | ind size ih => exact h n fun m hm => ih (sizeOf m) (hsize ▸ sizeOf_lt_of_mem_children hm) m rfl

section Walk

variable {enter : Node → Bool} {n m k : Node}

theorem walkEach_exprs (es : List Expr) :
    Expr.walkEach enter es = (es.map expr).flatMap (walk enter) := by
  induction es with
  | nil => rfl
  | cons e es ih => rw [Expr.walkEach, ih, List.map_cons, List.flatMap_cons, walk]

theorem walkEach_stmts (ss : List Stmt) :
    Stmt.walkEach enter ss = (ss.map stmt).flatMap (walk enter) := by
  induction ss with
  | nil => rfl
  | cons s ss ih => rw [Stmt.walkEach, ih, List.map_cons, List.flatMap_cons, walk]

/-- A walk that starts at a node goes on with its children, if it enters the node. -/
theorem walk_eq (h : n.kind?.isSome = true) :
    n.walk enter = n :: if enter n then n.children.flatMap (walk enter) else [] := by
  cases n with
  | program p => rw [walk, walkEach_stmts, children]
  | stmt s =>
      cases s with
      | missing => cases h
      | block body =>
          cases body
          simp only [walk, Stmt.walk, Block.walk, walkEach_stmts, children, Block.stmts]
      | _ => simp [walk, Stmt.walk, Expr.walk, children]
  | expr e =>
      cases e with
      | missing => cases h
      | cond token condition consequence alternative =>
          cases alternative <;> simp [walk, Expr.walk, Stmt.walk, children]
      | function token params body =>
          have hparams : (params.map fun id => expr (.ident id)).flatMap (walk enter) =
              params.map fun id => expr (.ident id) := by
            rw [List.flatMap_map, List.map_eq_flatMap]
            rfl
          simp [walk, Expr.walk, Stmt.walk, children, hparams]
      | call token callee args => simp [walk, Expr.walk, walkEach_exprs, children]
      | _ => simp [walk, Expr.walk, children]

theorem walk_hole (h : ¬ n.kind?.isSome = true) : n.walk enter = [] := by
  cases n with
  | program p => exact absurd rfl h
  | stmt s =>
      cases s with
      | missing => rfl
      | _ => exact absurd rfl h
  | expr e =>
      cases e with
      | missing => rfl
      | _ => exact absurd rfl h

/-- Whatever a walk meets is below the node it starts at. -/
theorem below_of_mem_walk (hk : k ∈ n.walk enter) : n.Below k := by
  induction n using childrenInduction with
  | h n ih =>
      by_cases hn : n.kind?.isSome = true
      · rw [walk_eq hn] at hk
        rcases List.mem_cons.mp hk with rfl | hk
        · exact .refl
        · split at hk
          · obtain ⟨m, hm, hk⟩ := List.mem_flatMap.mp hk
            exact .head hm (ih m hm hk)
          · cases hk
      · rw [walk_hole hn] at hk
        cases hk

end Walk

section Filled

variable {n m : Node}

theorem Filled.child (h : n.Filled) (hm : m ∈ n.children) : m.Filled :=
  fun k hk => h k (.head hm hk)

theorem Filled.below (h : n.Filled) (hm : n.Below m) : m.Filled :=
  fun k hk => h k (hm.trans hk)

/-- A walk through the whole of a tree without holes passes nothing over. -/
theorem Filled.mem_walk_iff (h : n.Filled) : m ∈ n.walk (fun _ => true) ↔ n.Below m := by
  refine ⟨below_of_mem_walk, fun hm => ?_⟩
  induction n using childrenInduction with
  | h n ih =>
      rw [walk_eq (h n .refl)]
      rcases Relation.ReflTransGen.cases_head hm with rfl | ⟨k, hk, hm⟩
      · exact .head _
      · exact .tail _ (List.mem_flatMap.mpr ⟨k, hk, ih k hk (h.child hk) hm⟩)

theorem allPrintable_stmts (ss : List Stmt) :
    Stmt.allPrintable ss = (ss.map stmt).all isPrintable := by
  induction ss with
  | nil => rfl
  | cons s ss ih => rw [Stmt.allPrintable, ih, List.map_cons, List.all_cons, isPrintable]

theorem allPrintable_exprs (es : List Expr) :
    Expr.allPrintable es = (es.map expr).all isPrintable := by
  induction es with
  | nil => rfl
  | cons e es ih => rw [Expr.allPrintable, ih, List.map_cons, List.all_cons, isPrintable]

/-- A node has a text if all its children have one. -/
theorem isPrintable_of_children (hn : n.kind?.isSome = true)
    (h : ∀ m ∈ n.children, m.isPrintable = true) : n.isPrintable = true := by
  cases n with
  | program p =>
      rw [isPrintable, Program.isPrintable, allPrintable_stmts]
      exact List.all_eq_true.mpr h
  | stmt s =>
      cases s with
      | missing => cases hn
      | block body =>
          cases body
          rw [isPrintable, Stmt.isPrintable, Block.isPrintable, allPrintable_stmts]
          exact List.all_eq_true.mpr h
      | _ => simp_all [children, isPrintable, Stmt.isPrintable]
  | expr e =>
      cases e with
      | missing => cases hn
      | cond token condition consequence alternative =>
          cases alternative <;> simp_all [children, isPrintable, Expr.isPrintable, Stmt.isPrintable]
      | function token params body =>
          exact h (.stmt (.block body)) (List.mem_append_right _ (List.mem_singleton_self _))
      | call token callee args =>
          rw [children, List.forall_mem_cons, ← List.all_eq_true, ← allPrintable_exprs] at h
          rw [isPrintable, Expr.isPrintable, Bool.and_eq_true]
          exact h
      | _ => simp_all [children, isPrintable, Expr.isPrintable]

theorem Filled.isPrintable (h : n.Filled) : n.isPrintable = true := by
  induction n using childrenInduction with
  | h n ih => exact isPrintable_of_children (h n .refl) fun m hm => ih m hm (h.child hm)

theorem Filled.render?_isSome (h : n.Filled) : n.render?.isSome = true := by
  rw [render?, if_pos h.isPrintable, Option.isSome_some]

theorem literal?_isSome (hn : n.kind?.isSome = true)
    (h : ∀ m ∈ n.children, m.kind?.isSome = true) : n.literal?.isSome = true := by
  have hstmt : ∀ s : Stmt, s.kind?.isSome = true → (s.token?.map Token.literal).isSome = true := by
    intro s hs
    cases s with
    | missing => cases hs
    | _ => rfl
  cases n with
  | program p =>
      cases p with
      | mk stmts =>
          cases stmts with
          | nil => rfl
          | cons s ss => exact hstmt s (h (.stmt s) (.head _))
  | stmt s => exact hstmt s hn
  | expr e =>
      cases e with
      | missing => cases hn
      | _ => rfl

theorem Filled.literal?_isSome (h : n.Filled) : n.literal?.isSome = true :=
  Node.literal?_isSome (h n .refl) fun m hm => h m (.single hm)

end Filled

end Monkey.Node
