import Mathlib.Tactic.Common
import Monkey.Evaluation.Eval

/-!
# Invariants of evaluation

What holds of the heap, of every value and of every node that is evaluated, and stays so whatever
is evaluated. What is said may depend on a world that grows as evaluation goes on, so that a scope
that is made can be given its place in it. An `Invariant` asks for the few things in which
evaluation touches the heap: looking up a name, making a function, binding a name and calling a
function. That is enough for every evaluation that comes to an end, `respects_eval`: one lemma
for each function of the evaluator says that it keeps the invariant if the evaluator it is given
does, and the bound for the nesting does the rest.
-/

namespace Monkey

/-- The nodes below a node that are evaluated in the same scope. -/
def Node.operands : Node → List Node
  | program p => p.stmts.map stmt
  | stmt (.bind _ _ value) => [expr value]
  | stmt (.ret _ value) => [expr value]
  | stmt (.expr _ value) => [expr value]
  | stmt (.block body) => body.stmts.map stmt
  | expr (.unary _ _ right) => [expr right]
  | expr (.binary _ _ left right) => [expr left, expr right]
  | expr (.cond _ condition consequence alternative) =>
    expr condition :: stmt (.block consequence) ::
      alternative.toList.map fun block => stmt (.block block)
  | expr (.call _ callee args) => expr callee :: args.map expr
  | _ => []

namespace Value

variable {P : Value → Prop} (hint : ∀ n, P (.int n)) (hbool : ∀ b, P (.ofBool b))
  (herror : ∀ fault, P (.error fault)) (op : Bytes)

include hint hbool herror

/-- An operator gives an integer, a boolean of the language or an error. -/
theorem unary_elim (right : Value) : P (.unary op right) := by
  unfold Value.unary
  split
  · exact hbool _
  · split
    · split
      · exact hint _
      · exact herror _
    · exact herror _

theorem binaryInt_elim (m n : Int64) : P (.binaryInt op m n) := by
  unfold Value.binaryInt
  repeat' split
  all_goals first | exact hint _ | exact hbool _ | exact herror _

theorem binary_elim (left right : Value) : P (.binary op left right) := by
  unfold Value.binary
  split
  · exact binaryInt_elim hint hbool herror op _ _
  · unfold Value.binaryBool
    repeat' split
    all_goals first | exact hbool _ | exact herror _
  · split <;> exact herror _

end Value

namespace Evaluation

/-- Whether the action came to an end. -/
def Outcome.isDone {α : Type} : Outcome α → Bool
  | done _ _ => true
  | _ => false

theorem Outcome.exists_of_isDone {α : Type} {o : Outcome α} (h : o.isDone = true) :
    ∃ a s, o = .done a s := by
  cases o with
  | done a s => exact ⟨a, s, rfl⟩
  | _ => cases h

structure Invariant (W : Type) where
  /-- The second world may come after the first. -/
  grows : W → W → Prop
  heap : W → Heap → Prop
  value : W → Value → Prop
  /-- The node may be evaluated in the scope. -/
  node : W → ScopeId → Node → Prop
  refl : ∀ w, grows w w
  trans : ∀ {w₁ w₂ w₃}, grows w₁ w₂ → grows w₂ w₃ → grows w₁ w₃
  value_mono : ∀ {w w' v}, grows w w' → value w v → value w' v
  node_mono : ∀ {w w' scope n}, grows w w' → node w scope n → node w' scope n
  int : ∀ w n, value w (.int n)
  ofBool : ∀ w b, value w (.ofBool b)
  null : ∀ w, value w .null
  error : ∀ w fault, value w (.error fault)
  ret : ∀ {w v}, value w (.ret v) ↔ value w v
  operands : ∀ {w scope n m}, node w scope n → m ∈ n.operands → node w scope m
  lookup : ∀ {w h scope name v}, heap w h → h.lookup? scope name = some v → value w v
  made : ∀ {w scope token params body}, node w scope (.expr (.function token params body)) →
    value w (.function params body scope)
  bound : ∀ {w h scope token id e v}, node w scope (.stmt (.bind token id e)) → value w v →
    heap w h → ∃ w', grows w w' ∧ heap w' (h.bind scope id.name v)
  called : ∀ {w h params body scope} {args : List Value}, value w (.function params body scope) →
    (∀ v ∈ args, value w v) → args.length = params.length → heap w h →
    ∃ w', grows w w' ∧
      heap w' ((h.alloc (some scope)).bindAll h.size ((params.map Ident.name).zip args)) ∧
      node w' h.size (.stmt (.block body))

namespace Invariant

open Monkey.Evaluation.Action

variable {W : Type} {α β : Type} (inv : Invariant W)

/-- Where the action comes to an end, the world has grown to one that fits the heap, and in which
`Q` holds of the result. -/
def Keeps (w : W) (x : Action α) (Q : W → α → Prop) : Prop :=
  ∀ s, inv.heap w s.heap → ∀ a s', x s = .done a s' →
    ∃ w', inv.grows w w' ∧ inv.heap w' s'.heap ∧ Q w' a

/-- The value, if there is one. -/
def result (w : W) (r : Option Value) : Prop := ∀ v ∈ r, inv.value w v

section Actions

variable {inv} {w : W} {P : W → α → Prop} {Q : W → β → Prop}

theorem keeps_pure {b : β} (h : Q w b) : inv.Keeps w (pure b) Q := by
  intro s hs a s' hrun
  cases hrun
  exact ⟨w, inv.refl w, hs, h⟩

theorem keeps_bind {x : Action α} {f : α → Action β} (hx : inv.Keeps w x P)
    (hf : ∀ a w', inv.grows w w' → P w' a → inv.Keeps w' (f a) Q) :
    inv.Keeps w (x >>= f) Q := by
  intro s hs b s' hrun
  obtain ⟨a, s₁, hx₁, hf₁⟩ := bind_eq_done.mp hrun
  obtain ⟨w₁, hgrows₁, hs₁, ha⟩ := hx s hs a s₁ hx₁
  obtain ⟨w₂, hgrows₂, hs₂, hb⟩ := hf a w₁ hgrows₁ ha s₁ hs₁ b s' hf₁
  exact ⟨w₂, inv.trans hgrows₁ hgrows₂, hs₂, hb⟩

theorem keeps_stuck : inv.Keeps w (stuck : Action β) Q := by
  intro s _ b s' hrun
  cases hrun

theorem keeps_note (e : Event) : inv.Keeps w (note e) fun _ _ => True := by
  intro s hs _ s' hrun
  cases hrun
  exact ⟨w, inv.refl w, hs, trivial⟩

theorem keeps_lookup? (scope : ScopeId) (name : Bytes) :
    inv.Keeps w (lookup? scope name) inv.result := by
  intro s hs r s' hrun
  cases hrun
  exact ⟨w, inv.refl w, hs, fun _ hv => inv.lookup hs hv⟩

theorem keeps_bindName {scope : ScopeId} {token : Token} {id : Ident} {e : Expr} {v : Value}
    (hnode : inv.node w scope (.stmt (.bind token id e))) (hv : inv.value w v) :
    inv.Keeps w (bindName scope id.name v) fun _ _ => True := by
  intro s hs _ s' hrun
  cases hrun
  obtain ⟨w', hgrows, hs'⟩ := inv.bound hnode hv hs
  exact ⟨w', hgrows, hs', trivial⟩

theorem keeps_enclose {params : List Ident} {body : Block} {scope : ScopeId} {args : List Value}
    (hfunction : inv.value w (.function params body scope)) (hargs : ∀ v ∈ args, inv.value w v)
    (hlength : args.length = params.length) :
    inv.Keeps w (enclose scope ((params.map Ident.name).zip args))
      fun w' inner => inv.node w' inner (.stmt (.block body)) := by
  intro s hs _ s' hrun
  cases hrun
  exact inv.called hfunction hargs hlength hs

end Actions

section Values

variable {inv} (w : W)

theorem value_unary (op : Bytes) (right : Value) : inv.value w (.unary op right) :=
  Value.unary_elim (inv.int w) (inv.ofBool w) (inv.error w) op right

theorem value_binary (op : Bytes) (left right : Value) : inv.value w (.binary op left right) :=
  Value.binary_elim (inv.int w) (inv.ofBool w) (inv.error w) op left right

variable {w}

theorem result_programResult {r : Option Value} (h : inv.result w r) :
    inv.result w (programResult r) := by
  unfold programResult
  split
  · next inner =>
      rintro v ⟨⟩
      exact inv.ret.mp (h _ rfl)
  · exact h

theorem value_callResult {r : Option Value} (h : inv.result w r) :
    inv.value w (callResult r) := by
  unfold callResult
  split
  · exact inv.ret.mp (h _ rfl)
  · exact h _ rfl
  · exact inv.null w

theorem value_blockValue {r : Option Value} (h : inv.result w r) :
    inv.value w (blockValue r) := by
  unfold blockValue
  split
  · exact h _ rfl
  · exact inv.null w

theorem result_some {v : Value} (h : inv.value w v) : inv.result w (some v) := by
  rintro _ ⟨⟩
  exact h

end Values

section Evaluator

variable {inv} {w : W} {sub : Evaluator} {scope : ScopeId}

theorem keeps_operand {x : Action (Option Value)} {use : Value → Action (Option Value)}
    (hx : inv.Keeps w x inv.result)
    (huse : ∀ v w', inv.grows w w' → inv.value w' v → inv.Keeps w' (use v) inv.result) :
    inv.Keeps w (operand x use) inv.result := by
  refine keeps_bind hx fun r w' hgrows hr => ?_
  split
  · exact keeps_stuck
  · exact keeps_pure (result_some (inv.error w' _))
  · next v _ => exact huse v w' hgrows (hr v rfl)

theorem keeps_sequence {sub : Stmt → Action (Option Value)} {stmts : List Stmt}
    {last : Option Value}
    (hsub : ∀ stmt ∈ stmts, ∀ w', inv.grows w w' → inv.Keeps w' (sub stmt) inv.result)
    (hlast : inv.result w last) : inv.Keeps w (sequence sub stmts last) inv.result := by
  induction stmts generalizing w last with
  | nil => exact keeps_pure hlast
  | cons stmt rest ih =>
      refine keeps_bind (hsub stmt (.head _) w (inv.refl w)) fun r w₁ hgrows hr => ?_
      split
      · exact keeps_pure hr
      · refine ih (fun stmt' hmem w₂ hgrows₂ => ?_) hr
        exact hsub stmt' (.tail _ hmem) w₂ (inv.trans hgrows hgrows₂)

/-- What holds of the values of arguments, if none of them is an error. -/
def argumentValues (inv : Invariant W) (w : W) : Value.Fault ⊕ List Value → Prop
  | .inl _ => True
  | .inr values => ∀ v ∈ values, inv.value w v

theorem keeps_arguments {sub : Expr → Action (Option Value)} {args : List Expr}
    {done : List Value}
    (hsub : ∀ e ∈ args, ∀ w', inv.grows w w' → inv.Keeps w' (sub e) inv.result)
    (hdone : ∀ v ∈ done, inv.value w v) :
    inv.Keeps w (arguments sub args done) inv.argumentValues := by
  induction args generalizing w done with
  | nil =>
      refine keeps_pure fun v hv => hdone v ?_
      simpa using hv
  | cons e rest ih =>
      refine keeps_bind (hsub e (.head _) w (inv.refl w)) fun r w₁ hgrows hr => ?_
      split
      · exact keeps_stuck
      · exact keeps_pure trivial
      · next value _ =>
          refine ih (fun e' hmem w₂ hgrows₂ => ?_) ?_
          · exact hsub e' (.tail _ hmem) w₂ (inv.trans hgrows hgrows₂)
          · intro v hv
            rcases List.mem_cons.mp hv with rfl | hv
            · exact hr _ rfl
            · exact inv.value_mono hgrows (hdone v hv)

/-- The evaluator keeps the invariant at every node that may be evaluated. -/
def Respects (inv : Invariant W) (sub : Evaluator) : Prop :=
  ∀ {w scope n}, inv.node w scope n → inv.Keeps w (sub scope n) inv.result

theorem keeps_apply (hsub : inv.Respects sub) {callee : Value} {args : List Value}
    (hcallee : inv.value w callee) (hargs : ∀ v ∈ args, inv.value w v) :
    inv.Keeps w (apply sub callee args) inv.result := by
  unfold apply
  split
  · next params body scope =>
      split
      · next hlength =>
          refine keeps_bind (keeps_enclose hcallee hargs hlength) fun inner w₁ _ hbody => ?_
          refine keeps_bind (hsub hbody) fun r w₂ _ hr => ?_
          exact keeps_pure (result_some (value_callResult hr))
      · exact keeps_pure (result_some (inv.error w _))
  · exact keeps_pure (result_some (inv.error w _))

/-- A block that stands for an expression. -/
theorem keeps_blockValue (hsub : inv.Respects sub) {body : Block}
    (hbody : inv.node w scope (.stmt (.block body))) :
    inv.Keeps w (do
      let result ← sub scope (.stmt (.block body))
      pure (some (blockValue result))) inv.result :=
  keeps_bind (hsub hbody) fun _ _ _ hr => keeps_pure (result_some (value_blockValue hr))

theorem keeps_evalExpr (hsub : inv.Respects sub) {e : Expr} (hnode : inv.node w scope (.expr e)) :
    inv.Keeps w (evalExpr sub scope e) inv.result := by
  cases e with
  | missing => exact keeps_pure (result_some (inv.error w _))
  | ident id =>
      refine keeps_bind (keeps_lookup? scope id.name) fun r w' _ hr => ?_
      split
      · exact keeps_pure hr
      · exact keeps_pure (result_some (inv.error w' _))
  | bool token value => exact keeps_pure (result_some (inv.ofBool w value))
  | int token value => exact keeps_pure (result_some (inv.int w value))
  | unary token op right =>
      refine keeps_operand (hsub (inv.operands hnode (.head _))) fun r w' _ _ => ?_
      exact keeps_pure (result_some (value_unary w' op r))
  | binary token op left right =>
      refine keeps_operand (hsub (inv.operands hnode (.head _))) fun l w₁ hgrows _ => ?_
      have hright := inv.node_mono hgrows (inv.operands hnode (.tail _ (.head _)))
      refine keeps_operand (hsub hright) fun r w₂ _ _ => ?_
      exact keeps_pure (result_some (value_binary w₂ op l r))
  | cond token condition consequence alternative =>
      refine keeps_operand (hsub (inv.operands hnode (.head _))) fun c w' hgrows _ => ?_
      split
      · exact keeps_blockValue hsub (inv.node_mono hgrows
          (inv.operands hnode (.tail _ (.head _))))
      · cases alternative with
        | none => exact keeps_pure (result_some (inv.null w'))
        | some block =>
            exact keeps_blockValue hsub (inv.node_mono hgrows
              (inv.operands hnode (.tail _ (.tail _ (.head _)))))
  | function token params body => exact keeps_pure (result_some (inv.made hnode))
  | call token callee args =>
      refine keeps_operand (hsub (inv.operands hnode (.head _))) fun f w₁ hgrows₁ hf => ?_
      have hargs : ∀ e ∈ args, ∀ w', inv.grows w₁ w' →
          inv.Keeps w' (sub scope (.expr e)) inv.result := by
        intro e he w' hgrows'
        have hmem : Node.expr e ∈ (Node.expr (.call token callee args)).operands :=
          .tail _ (List.mem_map_of_mem he)
        exact hsub (inv.node_mono (inv.trans hgrows₁ hgrows') (inv.operands hnode hmem))
      refine keeps_bind (keeps_arguments hargs (by simp)) fun values w₂ hgrows₂ hvalues => ?_
      split
      · exact keeps_pure (result_some (inv.error w₂ _))
      · exact keeps_apply hsub (inv.value_mono hgrows₂ hf) hvalues

theorem keeps_stmts (hsub : inv.Respects sub) {n : Node} {stmts : List Stmt}
    (hnode : inv.node w scope n) (hstmts : n.operands = stmts.map .stmt) :
    inv.Keeps w (sequence (fun s => sub scope (.stmt s)) stmts none) inv.result := by
  refine keeps_sequence (fun stmt hmem w' hgrows => ?_) (by simp [result])
  refine hsub (inv.node_mono hgrows (inv.operands hnode ?_))
  rw [hstmts]
  exact List.mem_map_of_mem hmem

theorem keeps_evalStmt (hsub : inv.Respects sub) {stmt : Stmt}
    (hnode : inv.node w scope (.stmt stmt)) :
    inv.Keeps w (evalStmt sub scope stmt) inv.result := by
  cases stmt with
  | missing => exact keeps_pure (result_some (inv.error w _))
  | bind token id value =>
      refine keeps_operand (hsub (inv.operands hnode (.head _))) fun v w₁ hgrows₁ hv => ?_
      refine keeps_bind (keeps_note _) fun _ w₂ hgrows₂ _ => ?_
      have hnode₂ := inv.node_mono (inv.trans hgrows₁ hgrows₂) hnode
      refine keeps_bind (keeps_bindName hnode₂ (inv.value_mono hgrows₂ hv)) fun _ _ _ _ => ?_
      exact keeps_pure (by simp [result])
  | ret token value =>
      refine keeps_operand (hsub (inv.operands hnode (.head _))) fun v _ _ hv => ?_
      exact keeps_pure (result_some (inv.ret.mpr hv))
  | expr token value => exact hsub (inv.operands hnode (.head _))
  | block body => exact keeps_stmts hsub hnode rfl

theorem keeps_evalProgram (hsub : inv.Respects sub) {p : Program}
    (hnode : inv.node w scope (.program p)) :
    inv.Keeps w (evalProgram sub scope p) inv.result :=
  keeps_bind (keeps_stmts hsub hnode rfl) fun _ _ _ hr => keeps_pure (result_programResult hr)

theorem respects_step (hsub : inv.Respects sub) : inv.Respects (step sub) := by
  intro w scope n hnode
  refine keeps_bind (keeps_note _) fun _ w' hgrows _ => ?_
  have hnode' := inv.node_mono hgrows hnode
  cases n with
  | program p => exact keeps_evalProgram hsub hnode'
  | stmt stmt => exact keeps_evalStmt hsub hnode'
  | expr e => exact keeps_evalExpr hsub hnode'

/-- An invariant is kept by every evaluation, however deep. -/
theorem respects_eval (bound : Nat) : inv.Respects (eval bound) := by
  induction bound with
  | zero =>
      intro w scope n _ s _ r s' hrun
      cases hrun
  | succ bound ih => exact respects_step ih

end Evaluator

end Invariant

end Evaluation

end Monkey
