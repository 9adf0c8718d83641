import Mathlib.Data.List.Basic
import Mathlib.Tactic.Choose
import Monkey.Proofs.Grammar.Wholeness

/-!
# The order of a walk

A place in a tree is the way to it from the root: the numbers of the children that one has to go to,
one after the other. `at?` gives what is at a place, and nothing where a hole is or where there is no
such child. In the lexicographic order of places a node comes before what is below it, and what is
below one child before what is below the next.

So the order of places is the order of a walk. A walk through the whole of a tree meets what is at
the places, each place once and in their order, and a walk that does not enter some of the nodes
leaves out the places below these.

The identifiers, integers and booleans that a walk meets are the leaves of a tree. If the tree is
well formed, their tokens are those of its tokens that have such a kind, in the order of the source,
for an operator stands between its operands but is none of them.
-/

namespace Monkey.Node

section Places

/-- The node at a place. -/
def at? (n : Node) : List Nat → Option Node
  | [] => if n.kind?.isSome then some n else none
  | i :: place => n.children[i]?.bind fun m => m.at? place

/-- The nodes above a place, from the root on. -/
def above (n : Node) : List Nat → List Node
  | [] => []
  | i :: place => n :: n.children[i]?.elim [] fun m => m.above place

/-- The places are those of the nodes of a tree, from the first to the last. -/
structure Lists (n : Node) (places : List (List Nat)) : Prop where
  ordered : places.Pairwise (List.Lex (· < ·))
  mem_iff : ∀ place, place ∈ places ↔ (n.at? place).isSome = true

/-- What is left of a list of places if nothing is entered but what `enter` picks. -/
def pruned (n : Node) (enter : Node → Bool) (places : List (List Nat)) : List (List Nat) :=
  places.filter fun place => (n.above place).all enter

/-- The places are listed, and every walk meets what is at those that are left for it. -/
structure WalksAlong (n : Node) (places : List (List Nat)) : Prop extends Lists n places where
  walk_eq : ∀ enter, n.walk enter = (n.pruned enter places).filterMap n.at?

variable {n m : Node} {i : Nat} {place : List Nat}

theorem at?_self (h : n.kind?.isSome = true) : n.at? [] = some n := if_pos h

theorem at?_child (h : n.children[i]? = some m) : n.at? (i :: place) = m.at? place := by
  rw [at?, h, Option.bind_some]

theorem above_child (h : n.children[i]? = some m) : n.above (i :: place) = n :: m.above place := by
  rw [above, h, Option.elim_some]

theorem children_hole (h : ¬ n.kind?.isSome = true) : n.children = [] := by
  cases n with
  | program p => exact absurd rfl h
  | stmt s =>
      cases s with
      | missing => rfl
      | _ => exact absurd rfl h
  | expr e =>
      cases e with
      | missing => rfl
      | _ => exact absurd rfl h

theorem at?_hole (h : ¬ n.kind?.isSome = true) (place : List Nat) : n.at? place = none := by
  cases place with
  | nil => exact if_neg h
  | cons i place => rw [at?, children_hole h, List.getElem?_nil, Option.bind_none]

/-- A hole has no places. -/
theorem walksAlong_hole (h : ¬ n.kind?.isSome = true) : n.WalksAlong [] where
  ordered := .nil
  mem_iff place := by simp [at?_hole h]
  walk_eq enter := walk_hole h

/-- The places below the children, each with the number of its child before it. -/
def placesBelow (n : Node) (places : Node → List (List Nat)) : List (List Nat) :=
  n.children.zipIdx.flatMap fun child => (places child.1).map (child.2 :: ·)

variable {places : Node → List (List Nat)}

theorem pairwise_placesBelow (h : ∀ m ∈ n.children, (places m).Pairwise (List.Lex (· < ·))) :
    (n.placesBelow places).Pairwise (List.Lex (· < ·)) := by
  have hnumbers : n.children.zipIdx.Pairwise fun a b => a.2 < b.2 := by
    rw [← List.pairwise_map, List.zipIdx_map_snd]
    exact List.pairwise_lt_range'
  rw [placesBelow, List.pairwise_flatMap]
  constructor
  · intro child hchild
    rw [List.pairwise_map]
    exact (h child.1 (List.fst_mem_of_mem_zipIdx hchild)).imp .cons
  · apply hnumbers.imp
    intro a b hlt p hp q hq
    obtain ⟨p, -, rfl⟩ := List.mem_map.mp hp
    obtain ⟨q, -, rfl⟩ := List.mem_map.mp hq
    exact .rel hlt

theorem mem_placesBelow (h : ∀ m ∈ n.children, (m.Lists (places m))) :
    i :: place ∈ n.placesBelow places ↔ (n.at? (i :: place)).isSome = true := by
  simp only [placesBelow, List.mem_flatMap, List.mem_map, List.cons.injEq, Prod.exists,
    List.mem_zipIdx_iff_getElem?]
  constructor
  · rintro ⟨m, j, hm, p, hp, rfl, rfl⟩
    rw [at?_child hm]
    exact ((h m (List.mem_of_getElem? hm)).mem_iff p).mp hp
  · intro hsome
    obtain ⟨k, hk⟩ := Option.isSome_iff_exists.mp hsome
    rw [at?, Option.bind_eq_some_iff] at hk
    obtain ⟨m, hm, hk⟩ := hk
    refine ⟨m, i, hm, place, ?_, rfl, rfl⟩
    rw [(h m (List.mem_of_getElem? hm)).mem_iff, hk]
    rfl

theorem pruned_placesBelow_of_not (enter : Node → Bool) (h : ¬ enter n = true) :
    n.pruned enter (n.placesBelow places) = [] := by
  rw [pruned, List.filter_eq_nil_iff]
  intro place hplace
  obtain ⟨child, hchild, hmem⟩ := List.mem_flatMap.mp hplace
  obtain ⟨place, -, rfl⟩ := List.mem_map.mp hmem
  rw [above_child (List.mem_zipIdx_iff_getElem?.mp hchild), List.all_cons, Bool.and_eq_true]
  exact fun hall => h hall.1

/-- Below a node that is entered, a walk meets what it would meet from the children. -/
theorem filterMap_placesBelow {enter : Node → Bool} (hn : enter n = true)
    (h : ∀ m ∈ n.children, m.WalksAlong (places m)) :
    (n.pruned enter (n.placesBelow places)).filterMap n.at? =
      n.children.flatMap (walk enter) := by
  have hchild : ∀ child ∈ n.children.zipIdx,
      (n.pruned enter ((places child.1).map (child.2 :: ·))).filterMap n.at? =
        child.1.walk enter := by
    intro child hmem
    have hget := List.mem_zipIdx_iff_getElem?.mp hmem
    rw [(h child.1 (List.fst_mem_of_mem_zipIdx hmem)).walk_eq, pruned, pruned, List.filter_map,
      List.filterMap_map]
    simp only [Function.comp_def, above_child hget, at?_child hget, List.all_cons, hn,
      Bool.true_and]
  calc (n.pruned enter (n.placesBelow places)).filterMap n.at?
      = n.children.zipIdx.flatMap fun child =>
          (n.pruned enter ((places child.1).map (child.2 :: ·))).filterMap n.at? := by
        rw [pruned, placesBelow, List.filter_flatMap, List.filterMap_flatMap]
        rfl
    _ = n.children.zipIdx.flatMap fun child => child.1.walk enter :=
        List.flatMap_congr hchild
    _ = n.children.flatMap (walk enter) := by
        rw [← List.flatMap_map, List.zipIdx_map_fst]

theorem walksAlong_of_children (hn : n.kind?.isSome = true)
    (h : ∀ m ∈ n.children, m.WalksAlong (places m)) :
    n.WalksAlong ([] :: n.placesBelow places) where
  ordered := by
    rw [List.pairwise_cons]
    constructor
    · intro place hplace
      obtain ⟨child, -, hmem⟩ := List.mem_flatMap.mp hplace
      obtain ⟨place, -, rfl⟩ := List.mem_map.mp hmem
      exact .nil
    · exact pairwise_placesBelow fun m hm => (h m hm).ordered
  mem_iff place := by
    cases place with
    | nil => simp [at?_self hn]
    | cons i place =>
        rw [← mem_placesBelow fun m hm => (h m hm).toLists, List.mem_cons]
        exact or_iff_right (List.cons_ne_nil i place)
  walk_eq enter := by
    have hroot : n.pruned enter ([] :: n.placesBelow places) =
        [] :: n.pruned enter (n.placesBelow places) := List.filter_cons_of_pos rfl
    rw [Node.walk_eq hn, hroot, List.filterMap_cons_some (at?_self hn)]
    by_cases henter : enter n = true
    · rw [if_pos henter, filterMap_placesBelow henter h]
    · rw [if_neg henter, pruned_placesBelow_of_not enter henter, List.filterMap_nil]

/-- Every tree has a list of its places, and walks go along it. -/
theorem exists_walksAlong (n : Node) : ∃ places, n.WalksAlong places := by
  induction n using childrenInduction with
  | h n ih =>
      by_cases hn : n.kind?.isSome = true
      · choose! places hplaces using ih
        exact ⟨_, walksAlong_of_children hn hplaces⟩
      · exact ⟨[], walksAlong_hole hn⟩

end Places

section Leaves

/-- The kinds of the tokens that stand for an operand by themselves. -/
def leafKinds : List Token.Kind := [.ident, .int, .true, .false]

/-- The token of an identifier, of an integer or of a boolean. -/
def leafToken? : Node → Option Token
  | expr (.ident id) => some id.token
  | expr (.bool token _) => some token
  | expr (.int token _) => some token
  | _ => none

/-- The tokens of the leaves, in the order in which a walk meets them. -/
def leafTokens (n : Node) : List Token := (n.walk fun _ => true).filterMap leafToken?

/-- The tokens of a list that a leaf can have. -/
def leavesAmong (ts : List Token) : List Token := ts.filter fun t => t.kind ∈ leafKinds

/-- The tokens of a tree in the order of the source. -/
def tokens : Node → List Token
  | program p => p.tokens
  | stmt s => s.tokens
  | expr e => e.tokens

variable {n : Node}

theorem leafTokens_eq (h : n.kind?.isSome = true) :
    n.leafTokens = n.leafToken?.toList ++ n.children.flatMap leafTokens := by
  rw [leafTokens, walk_eq h, if_pos rfl, List.filterMap_cons, List.filterMap_flatMap]
  cases n.leafToken? <;> rfl

theorem tokensEach_exprs (es : List Expr) :
    Expr.tokensEach es = (es.map expr).flatMap tokens := by
  induction es with
  | nil => rfl
  | cons e es ih => rw [Expr.tokensEach, ih, List.map_cons, List.flatMap_cons, tokens]

theorem tokensEach_stmts (ss : List Stmt) :
    Stmt.tokensEach ss = (ss.map stmt).flatMap tokens := by
  induction ss with
  | nil => rfl
  | cons s ss ih => rw [Stmt.tokensEach, ih, List.map_cons, List.flatMap_cons, tokens]

theorem leavesAmong_cons_of_mem {t : Token} (h : t.kind ∈ leafKinds) (ts : List Token) :
    leavesAmong (t :: ts) = t :: leavesAmong ts := List.filter_cons_of_pos (by simpa using h)

theorem leavesAmong_cons_of_not_mem {t : Token} (h : t.kind ∉ leafKinds) (ts : List Token) :
    leavesAmong (t :: ts) = leavesAmong ts := List.filter_cons_of_neg (by simpa using h)

@[simp] theorem leavesAmong_append (ts us : List Token) :
    leavesAmong (ts ++ us) = leavesAmong ts ++ leavesAmong us := List.filter_append ..

theorem leavesAmong_stmts_cons {t : Token} (h : t.kind ∉ leafKinds) (ss : List Stmt) :
    leavesAmong (t :: Stmt.tokensEach ss) = leavesAmong ((ss.map stmt).flatMap tokens) := by
  rw [leavesAmong_cons_of_not_mem h, tokensEach_stmts]

/-- The tokens of a well-formed node that a leaf can have are its own, if it is a leaf, and those of
its children. -/
theorem WellFormed.leavesAmong_tokens (h : n.WellFormed) :
    leavesAmong n.tokens = n.leafToken?.toList ++ leavesAmong (n.children.flatMap tokens) := by
  cases n with
  | program p => exact congrArg leavesAmong (tokensEach_stmts p.stmts)
  | stmt s =>
      cases s with
      | missing => cases h
      | block body =>
          cases body with
          | mk token stmts =>
              have hkind : token.kind = .lbrace := h.1
              exact leavesAmong_stmts_cons (by simp [hkind, leafKinds]) stmts
      | bind token id value =>
          have hkind : token.kind = .let := h.1
          have hnot : token.kind ∉ leafKinds := by simp [hkind, leafKinds]
          simp [tokens, Stmt.tokens, Expr.tokens, children, leafToken?,
            leavesAmong_cons_of_not_mem hnot]
      | ret token value =>
          have hkind : token.kind = .return := h.1
          have hnot : token.kind ∉ leafKinds := by simp [hkind, leafKinds]
          simp [tokens, Stmt.tokens, children, leafToken?, leavesAmong_cons_of_not_mem hnot]
      | expr token value => simp [tokens, Stmt.tokens, children, leafToken?]
  | expr e =>
      cases e with
      | missing => cases h
      | ident id =>
          have hkind : id.token.kind = .ident := h.1
          exact leavesAmong_cons_of_mem (by simp [hkind, leafKinds]) []
      | bool token value =>
          have hkind : token.kind = if value then .true else .false := h
          exact leavesAmong_cons_of_mem (by cases value <;> simp [hkind, leafKinds]) []
      | int token value =>
          have hkind : token.kind = .int := h.1
          exact leavesAmong_cons_of_mem (by simp [hkind, leafKinds]) []
      | unary token op right =>
          have hsigns : ∀ kind ∈ Grammar.signs, kind ∉ leafKinds := by decide
          simp [tokens, Expr.tokens, children, leafToken?,
            leavesAmong_cons_of_not_mem (hsigns _ h.1)]
      | binary token op left right =>
          have hoperators : ∀ kind ∈ Grammar.binaryOperators, kind ∉ leafKinds := by decide
          simp [tokens, Expr.tokens, children, leafToken?,
            leavesAmong_cons_of_not_mem (hoperators _ h.1)]
      | cond token condition consequence alternative =>
          have hkind : token.kind = .if := by cases alternative <;> exact h.1
          have hnot : token.kind ∉ leafKinds := by simp [hkind, leafKinds]
          cases alternative <;>
            simp [tokens, Expr.tokens, Stmt.tokens, children, leafToken?,
              leavesAmong_cons_of_not_mem hnot]
      | function token params body =>
          have hkind : token.kind = .function := h.1
          have hnot : token.kind ∉ leafKinds := by simp [hkind, leafKinds]
          have hparams : (params.map fun id => expr (.ident id)).flatMap tokens =
              params.map Ident.token := by
            rw [List.flatMap_map, List.map_eq_flatMap]
            rfl
          simp [tokens, Expr.tokens, Stmt.tokens, children, leafToken?, hparams,
            leavesAmong_cons_of_not_mem hnot]
      | call token callee args =>
          have hkind : token.kind = .lparen := h.1
          have hnot : token.kind ∉ leafKinds := by simp [hkind, leafKinds]
          simp [tokens, Expr.tokens, children, leafToken?, tokensEach_exprs,
            leavesAmong_cons_of_not_mem hnot]

/-- A walk meets the leaves of a well-formed tree in the order of the source. -/
theorem WellFormed.leafTokens_eq (h : n.WellFormed) : n.leafTokens = leavesAmong n.tokens := by
  induction n using childrenInduction with
  | h n ih =>
      have hchildren : n.children.flatMap leafTokens =
          n.children.flatMap fun m => leavesAmong m.tokens :=
        List.flatMap_congr fun m hm => ih m hm (h.child hm)
      rw [Node.leafTokens_eq h.kind?_isSome, h.leavesAmong_tokens, hchildren, leavesAmong,
        List.filter_flatMap]
      rfl

end Leaves

end Monkey.Node
