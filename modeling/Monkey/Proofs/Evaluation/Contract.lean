import Monkey.Proofs.Evaluation.Invariant
import Monkey.Proofs.Scope.Heap

/-!
# What may be held and what may come of a node

A value that a node uses, as an operand, a condition, a callee, an argument, or to bind or return
it, need not be of the same sort as one that it merely hands on, as a block does with the result
of a statement. A `Contract` says which values may be held, that is bound and used, and which
results the nodes that are evaluated may have; an error may come of any node.

A second evaluator may differ from the evaluator only where the contract is not kept. `Shadows`
says of two actions that the first one keeps the contract and that the second one does the same.
One lemma for each function of the evaluator says so if it holds of the two evaluators that it is
given. What the second action does may also depend on how the whole evaluation ends: then it has
to do the same only as long as `final` holds of every error and of the state in which it comes up,
and an error leaves every node around it in just that state.
-/

namespace Monkey

namespace Node

/-- Whether the value of the part `m` is used by the node, and not just handed on. -/
def uses : Node → Node → Bool
  | stmt (.expr _ _), _ => false
  | _, expr _ => true
  | _, _ => false

/-- What a node makes of a result that it hands on. -/
def conclude : Node → Option Value → Option Value
  | program _, r => Evaluation.programResult r
  | expr _, r => some (Evaluation.blockValue r)
  | stmt _, r => r

end Node

/-- The property holds of every value that is bound to a name. -/
def Heap.Holds (P : Value → Prop) (h : Heap) : Prop := ∀ id, ∀ entry ∈ h.bindings id, P entry.2

namespace Heap.Holds

variable {P : Value → Prop} {h : Heap}

theorem mono {Q : Value → Prop} (hh : h.Holds P) (hPQ : ∀ v, P v → Q v) : h.Holds Q :=
  fun id entry hentry => hPQ entry.2 (hh id entry hentry)

theorem lookup (hh : h.Holds P) {scope : ScopeId} {name : Bytes} {v : Value}
    (hlookup : h.lookup? scope name = some v) : P v := by
  obtain ⟨id, hmem⟩ := Heap.exists_mem_of_lookup? hlookup
  exact hh id _ hmem

theorem alloc (hh : h.Holds P) (outer : Option ScopeId) : (h.alloc outer).Holds P := by
  intro id entry hentry
  rw [Heap.bindings_alloc] at hentry
  exact hh id entry hentry

/-- Nothing is bound at the beginning. -/
theorem start : (Heap.empty.alloc none).Holds P := by
  refine alloc (fun id entry hentry => ?_) none
  rw [Heap.bindings_of_size_le (Nat.zero_le id)] at hentry
  cases hentry

theorem bind (hh : h.Holds P) (id : ScopeId) (name : Bytes) {v : Value} (hv : P v) :
    (h.bind id name v).Holds P := by
  intro other entry hentry
  rcases Heap.mem_of_mem_bind hentry with rfl | hold
  · exact hv
  · exact hh other entry hold

theorem bindAll (hh : h.Holds P) (id : ScopeId) {pairs : List (Bytes × Value)}
    (hpairs : ∀ pair ∈ pairs, P pair.2) : (h.bindAll id pairs).Holds P := by
  induction pairs generalizing h with
  | nil => exact hh
  | cons pair pairs ih =>
      have hfirst := hh.bind id pair.1 (hpairs pair (.head _))
      exact ih hfirst fun pair' hmem => hpairs pair' (.tail _ hmem)

end Heap.Holds

namespace Evaluation

open Value (Fault)
open Monkey.Evaluation.Action

structure Contract where
  /-- The value may be bound and used. -/
  held : Value → Prop
  /-- The node may be evaluated. -/
  node : Node → Prop
  /-- The result may come of the node. -/
  gives : Node → Option Value → Prop
  operands : ∀ {n m}, node n → m ∈ n.operands → node m
  made : ∀ {token params body} scope, node (.expr (.function token params body)) →
    held (.function params body scope)
  body : ∀ {params body scope}, held (.function params body scope) → node (.stmt (.block body))
  int : ∀ n, held (.int n)
  ofBool : ∀ b, held (.ofBool b)
  null : held .null
  void : ∀ n, gives n none
  error : ∀ n fault, gives n (some (.error fault))
  expr : ∀ {e v}, node (.expr e) → held v → gives (.expr e) (some v)
  returned : ∀ {token e v}, node (.stmt (.ret token e)) → held v →
    gives (.stmt (.ret token e)) (some (.ret v))
  used : ∀ {n m v}, node n → m ∈ n.operands → n.uses m = true → gives m (some v) →
    (∃ fault, v = .error fault) ∨ held v
  handedOn : ∀ {n m r}, node n → m ∈ n.operands → n.uses m = false → gives m r →
    gives n (n.conclude r)
  called : ∀ {body r}, node (.stmt (.block body)) → gives (.stmt (.block body)) r →
    (∃ fault, callResult r = .error fault) ∨ held (callResult r)

namespace Contract

variable (c : Contract)

/-- The value is an error or may be held. -/
def Usable (v : Value) : Prop := (∃ fault, v = .error fault) ∨ c.held v

/-- From every heap that keeps the contract, the first action leads to another such heap and to a
result of which `Q` holds, and the second action does the same as the first one, provided that
`pass` holds of the end. -/
def Shadows {α : Type} (pass : α → State → Prop) (x y : Action α) (Q : α → Prop) : Prop :=
  ∀ s, s.heap.Holds c.held →
    (∀ a s', x s = .done a s' → s'.heap.Holds c.held ∧ Q a) ∧
    ((∀ a s', x s = .done a s' → pass a s') → y s = x s)

/-- An error comes up only in a state in which it may. -/
def Passes (final : Fault → State → Prop) (r : Option Value) (s : State) : Prop :=
  ∀ fault, r = some (.error fault) → final fault s

/-- The end of a list of arguments passes. -/
def ArgumentsPass (final : Fault → State → Prop) : Fault ⊕ List Value → State → Prop
  | .inl fault, s => final fault s
  | .inr _, _ => True

/-- Any end passes. -/
def anyEnd {α : Type} : α → State → Prop := fun _ _ => True

variable {c}

theorem Usable.of_error (fault : Fault) : c.Usable (.error fault) := .inl ⟨fault, rfl⟩

theorem Usable.held {v : Value} (h : c.Usable v) (hv : ∀ fault, v ≠ .error fault) : c.held v :=
  h.resolve_left fun ⟨fault, heq⟩ => hv fault heq

theorem usable_unary (op : Bytes) (v : Value) : c.Usable (.unary op v) :=
  Value.unary_elim (P := c.Usable) (fun n => .inr (c.int n)) (fun b => .inr (c.ofBool b)) .of_error
    op v

theorem usable_binary (op : Bytes) (u v : Value) : c.Usable (.binary op u v) :=
  Value.binary_elim (P := c.Usable) (fun n => .inr (c.int n)) (fun b => .inr (c.ofBool b)) .of_error
    op u v

theorem gives_usable {e : Expr} (he : c.node (.expr e)) {v : Value} (hv : c.Usable v) :
    c.gives (.expr e) (some v) := by
  rcases hv with ⟨fault, rfl⟩ | hv
  · exact c.error _ fault
  · exact c.expr he hv

section Actions

variable {α β : Type} {pass : β → State → Prop} {Q : β → Prop}

theorem Shadows.mono {x y : Action β} {Q' : β → Prop} (h : c.Shadows pass x y Q)
    (hQ : ∀ b, Q b → Q' b) : c.Shadows pass x y Q' := by
  intro s hs
  obtain ⟨hkeeps, hsame⟩ := h s hs
  exact ⟨fun b s' hrun => (hkeeps b s' hrun).imp_right (hQ b), hsame⟩

theorem shadows_pure {b : β} (h : Q b) : c.Shadows pass (pure b) (pure b) Q := by
  intro s hs
  refine ⟨fun a s' hrun => ?_, fun _ => rfl⟩
  cases hrun
  exact ⟨hs, h⟩

theorem shadows_stuck : c.Shadows pass (stuck : Action β) stuck Q :=
  fun _ _ => ⟨fun _ _ hrun => (by cases hrun), fun _ => rfl⟩

theorem shadows_bind {pass' : α → State → Prop} {P : α → Prop} {x y : Action α}
    {f g : α → Action β} (hx : c.Shadows pass' x y P)
    (hf : ∀ a, P a → c.Shadows pass (f a) (g a) Q)
    (hpass : ∀ a s, (∀ b s', f a s = .done b s' → pass b s') → pass' a s) :
    c.Shadows pass (x >>= f) (y >>= g) Q := by
  intro s hs
  obtain ⟨hkeeps, hsame⟩ := hx s hs
  constructor
  · intro b s' hrun
    obtain ⟨a, s₁, hxs, hfa⟩ := bind_eq_done.mp hrun
    obtain ⟨hs₁, ha⟩ := hkeeps a s₁ hxs
    exact (hf a ha s₁ hs₁).1 b s' hfa
  · intro hends
    have hends' : ∀ {a s₁}, x s = .done a s₁ → ∀ b s', f a s₁ = .done b s' → pass b s' :=
      fun hx₁ b s' hfa => hends b s' ((bind_done hx₁).trans hfa)
    have hy : y s = x s := hsame fun a s₁ hx₁ => hpass a s₁ (hends' hx₁)
    cases hxs : x s with
    | done a s₁ =>
        obtain ⟨hs₁, ha⟩ := hkeeps a s₁ hxs
        have hg := (hf a ha s₁ hs₁).2 (hends' hxs)
        rw [bind_done (hy.trans hxs), bind_done hxs, hg]
    | stuck => rw [bind_stuck (hy.trans hxs), bind_stuck hxs]
    | exhausted => rw [bind_exhausted (hy.trans hxs), bind_exhausted hxs]

/-- The first of two actions is none that ends with an error. -/
theorem shadows_bind_free {P : α → Prop} {x y : Action α} {f g : α → Action β}
    (hx : c.Shadows anyEnd x y P) (hf : ∀ a, P a → c.Shadows pass (f a) (g a) Q) :
    c.Shadows pass (x >>= f) (y >>= g) Q :=
  shadows_bind hx hf fun _ _ _ => trivial

theorem shadows_note (e : Event) : c.Shadows anyEnd (note e) (note e) fun _ => True := by
  intro s hs
  refine ⟨fun _ s' hrun => ?_, fun _ => rfl⟩
  cases hrun
  exact ⟨hs, trivial⟩

theorem shadows_lookup? (scope : ScopeId) (name : Bytes) :
    c.Shadows anyEnd (lookup? scope name) (lookup? scope name) fun r => ∀ v ∈ r, c.held v := by
  intro s hs
  refine ⟨fun r s' hrun => ?_, fun _ => rfl⟩
  cases hrun
  exact ⟨hs, fun v hv => hs.lookup hv⟩

theorem shadows_bindName (scope : ScopeId) (name : Bytes) {v : Value} (hv : c.held v) :
    c.Shadows anyEnd (bindName scope name v) (bindName scope name v) fun _ => True := by
  intro s hs
  refine ⟨fun _ s' hrun => ?_, fun _ => rfl⟩
  cases hrun
  exact ⟨hs.bind scope name hv, trivial⟩

theorem shadows_enclose (scope : ScopeId) (names : List Bytes) {args : List Value}
    (hargs : ∀ v ∈ args, c.held v) :
    c.Shadows anyEnd (enclose scope (names.zip args)) (enclose scope (names.zip args))
      fun _ => True := by
  intro s hs
  refine ⟨fun _ s' hrun => ?_, fun _ => rfl⟩
  cases hrun
  exact ⟨(hs.alloc _).bindAll _ fun pair hpair => hargs _ (List.of_mem_zip hpair).2, trivial⟩

end Actions

section Evaluator

variable {final : Fault → State → Prop} {sub sub' : Evaluator} {scope : ScopeId}
  {Q : Option Value → Prop}

/-- An operand that is an error is the result, in the same state. -/
theorem shadows_operand {x y : Action (Option Value)} {use use' : Value → Action (Option Value)}
    {P : Option Value → Prop} (hx : c.Shadows (Passes final) x y P)
    (hused : ∀ v, P (some v) → c.Usable v) (herror : ∀ fault, Q (some (.error fault)))
    (huse : ∀ v, c.held v → c.Shadows (Passes final) (use v) (use' v) Q) :
    c.Shadows (Passes final) (operand x use) (operand y use') Q := by
  refine shadows_bind hx (fun r hr => ?_) fun r s hends => ?_
  · cases r with
    | none => exact shadows_stuck
    | some v =>
        have hv := hused v hr
        cases v with
        | error fault => exact shadows_pure (herror fault)
        | _ => exact huse _ (hv.held (by simp))
  · rintro fault rfl
    exact hends _ s rfl fault rfl

theorem shadows_sequence {sub sub' : Stmt → Action (Option Value)} {stmts : List Stmt}
    {last : Option Value}
    (hsub : ∀ stmt ∈ stmts, c.Shadows (Passes final) (sub stmt) (sub' stmt) Q) (hlast : Q last) :
    c.Shadows (Passes final) (sequence sub stmts last) (sequence sub' stmts last) Q := by
  induction stmts generalizing last with
  | nil => exact shadows_pure hlast
  | cons stmt rest ih =>
      refine shadows_bind (hsub stmt (.head _)) (fun r hr => ?_) fun r s hends => ?_
      · split
        · exact shadows_pure hr
        · exact ih (fun stmt' hmem => hsub stmt' (.tail _ hmem)) hr
      · rintro fault rfl
        exact hends _ s rfl fault rfl

theorem shadows_arguments {sub sub' : Expr → Action (Option Value)} {P : Expr → Option Value → Prop}
    {args : List Expr} {done : List Value}
    (hsub : ∀ e ∈ args, c.Shadows (Passes final) (sub e) (sub' e) (P e))
    (hused : ∀ e ∈ args, ∀ v, P e (some v) → c.Usable v) (hdone : ∀ v ∈ done, c.held v) :
    c.Shadows (ArgumentsPass final) (arguments sub args done) (arguments sub' args done)
      fun r => ∀ values, r = .inr values → ∀ v ∈ values, c.held v := by
  induction args generalizing done with
  | nil =>
      refine shadows_pure ?_
      rintro _ ⟨⟩ v hv
      exact hdone v (by simpa using hv)
  | cons e rest ih =>
      refine shadows_bind (hsub e (.head _)) (fun r hr => ?_) fun r s hends => ?_
      · cases r with
        | none => exact shadows_stuck
        | some v =>
            have hv := hused e (.head _) v hr
            have hrest : c.held v → c.Shadows (ArgumentsPass final) (arguments sub rest (v :: done))
                (arguments sub' rest (v :: done)) _ := fun hv => ih
              (fun e' hmem => hsub e' (.tail _ hmem)) (fun e' hmem => hused e' (.tail _ hmem))
              (List.forall_mem_cons.mpr ⟨hv, hdone⟩)
            cases v with
            | error fault => exact shadows_pure (by simp)
            | _ => exact hrest (hv.held (by simp))
      · rintro fault rfl
        exact hends _ s rfl

/-- The second evaluator shadows the first one at the node, in every scope. -/
def ShadowsAt (c : Contract) (final : Fault → State → Prop) (sub sub' : Evaluator) (n : Node) :
    Prop :=
  ∀ scope, c.Shadows (Passes final) (sub scope n) (sub' scope n) (c.gives n)

/-- The second evaluator shadows the first one at the bodies of functions. -/
def ShadowsBodies (c : Contract) (final : Fault → State → Prop) (sub sub' : Evaluator) : Prop :=
  ∀ body, c.node (.stmt (.block body)) → c.ShadowsAt final sub sub' (.stmt (.block body))

theorem shadows_apply (hbodies : c.ShadowsBodies final sub sub') {callee : Value}
    {args : List Value} (hcallee : c.held callee) (hargs : ∀ v ∈ args, c.held v) :
    c.Shadows (Passes final) (apply sub callee args) (apply sub' callee args)
      fun r => ∀ v ∈ r, c.Usable v := by
  have herror : ∀ fault, c.Shadows (Passes final)
      (pure (some (.error fault)) : Action (Option Value)) (pure (some (.error fault)))
      fun r => ∀ v ∈ r, c.Usable v :=
    fun fault => shadows_pure (by simpa using Usable.of_error fault)
  cases callee with
  | function params body scope =>
      simp only [apply]
      split
      · refine shadows_bind_free (shadows_enclose scope _ hargs) fun inner _ => ?_
        have hbody := c.body hcallee
        refine shadows_bind (hbodies body hbody inner) (fun r hr => ?_) fun r s hends => ?_
        · have husable : c.Usable (callResult r) := c.called hbody hr
          exact shadows_pure (by simpa using husable)
        · rintro fault rfl
          exact hends _ s rfl fault rfl
      · exact herror _
  | _ => exact herror _

/-- A part of the node the value of which it uses. -/
theorem usable_of_part {n m : Node} (hn : c.node n) (hm : m ∈ n.operands) (huses : n.uses m = true)
    (v : Value) (hv : c.gives m (some v)) : c.Usable v := c.used hn hm huses hv

/-- A node that uses the value of one of its parts. -/
theorem shadows_part {n m : Node} (hn : c.node n) (hm : m ∈ n.operands) (huses : n.uses m = true)
    (hpart : c.ShadowsAt final sub sub' m) {use use' : Value → Action (Option Value)}
    (huse : ∀ v, c.held v → c.Shadows (Passes final) (use v) (use' v) (c.gives n)) :
    c.Shadows (Passes final) (operand (sub scope m) use) (operand (sub' scope m) use')
      (c.gives n) :=
  shadows_operand (hpart scope) (usable_of_part hn hm huses) (c.error _) huse

/-- A block that stands for an expression. -/
theorem shadows_branch {token : Token} {condition : Expr} {consequence : Block}
    {alternative : Option Block} {body : Block}
    (hn : c.node (.expr (.cond token condition consequence alternative)))
    (hbody : .stmt (.block body) ∈
      (Node.expr (.cond token condition consequence alternative)).operands)
    (hpart : c.ShadowsAt final sub sub' (.stmt (.block body))) :
    c.Shadows (Passes final)
      (do
        let result ← sub scope (.stmt (.block body))
        pure (some (blockValue result)))
      (do
        let result ← sub' scope (.stmt (.block body))
        pure (some (blockValue result)))
      (c.gives (.expr (.cond token condition consequence alternative))) := by
  refine shadows_bind (hpart scope) (fun r hr => ?_) fun r s hends => ?_
  · exact shadows_pure (c.handedOn hn hbody rfl hr)
  · rintro fault rfl
    exact hends _ s rfl fault rfl

/-- A call, in which a function is applied by `use` and `use'`. -/
theorem shadows_call {token : Token} {callee : Expr} {args : List Expr}
    (hn : c.node (.expr (.call token callee args)))
    (hparts : ∀ m ∈ (Node.expr (.call token callee args)).operands, c.ShadowsAt final sub sub' m)
    {use use' : Value → List Value → Action (Option Value)}
    (huse : ∀ f values, c.held f → (∀ v ∈ values, c.held v) →
      c.Shadows (Passes final) (use f values) (use' f values) fun r => ∀ v ∈ r, c.Usable v) :
    c.Shadows (Passes final)
      (operand (sub scope (.expr callee)) fun f => do
        match ← arguments (fun e => sub scope (.expr e)) args [] with
        | .inl fault => pure (some (.error fault))
        | .inr values => use f values)
      (operand (sub' scope (.expr callee)) fun f => do
        match ← arguments (fun e => sub' scope (.expr e)) args [] with
        | .inl fault => pure (some (.error fault))
        | .inr values => use' f values)
      (c.gives (.expr (.call token callee args))) := by
  have hargs : ∀ e ∈ args, Node.expr e ∈ (Node.expr (.call token callee args)).operands :=
    fun e he => .tail _ (List.mem_map_of_mem he)
  refine shadows_part hn (.head _) rfl (hparts _ (.head _)) fun f hf => ?_
  refine shadows_bind (shadows_arguments (fun e he => hparts _ (hargs e he) scope)
    (fun e he => usable_of_part hn (hargs e he) rfl) (by simp)) (fun r hr => ?_) fun r s hends => ?_
  · cases r with
    | inl fault => exact shadows_pure (c.error _ fault)
    | inr values =>
        refine (huse f values hf (hr values rfl)).mono fun r hr => ?_
        cases r with
        | none => exact c.void _
        | some v => exact gives_usable hn (hr v rfl)
  · cases r with
    | inl fault => exact hends _ s rfl fault rfl
    | inr values => trivial

theorem shadows_evalExpr {e : Expr} (hn : c.node (.expr e))
    (hparts : ∀ m ∈ (Node.expr e).operands, c.ShadowsAt final sub sub' m)
    (hbodies : c.ShadowsBodies final sub sub') :
    c.Shadows (Passes final) (evalExpr sub scope e) (evalExpr sub' scope e)
      (c.gives (.expr e)) := by
  cases e with
  | missing => exact shadows_pure (c.error _ _)
  | ident id =>
      refine shadows_bind_free (shadows_lookup? scope id.name) fun r hr => ?_
      cases r with
      | none => exact shadows_pure (c.error _ _)
      | some v => exact shadows_pure (c.expr hn (hr v rfl))
  | bool token value => exact shadows_pure (c.expr hn (c.ofBool value))
  | int token value => exact shadows_pure (c.expr hn (c.int value))
  | unary token op right =>
      refine shadows_part hn (.head _) rfl (hparts _ (.head _)) fun v _ => ?_
      exact shadows_pure (gives_usable hn (usable_unary op v))
  | binary token op left right =>
      refine shadows_part hn (.head _) rfl (hparts _ (.head _)) fun u _ => ?_
      refine shadows_part hn (.tail _ (.head _)) rfl (hparts _ (.tail _ (.head _))) fun v _ => ?_
      exact shadows_pure (gives_usable hn (usable_binary op u v))
  | cond token condition consequence alternative =>
      refine shadows_part hn (.head _) rfl (hparts _ (.head _)) fun v _ => ?_
      split
      · exact shadows_branch hn (.tail _ (.head _)) (hparts _ (.tail _ (.head _)))
      · cases alternative with
        | none => exact shadows_pure (c.expr hn c.null)
        | some block =>
            exact shadows_branch hn (.tail _ (.tail _ (.head _)))
              (hparts _ (.tail _ (.tail _ (.head _))))
  | function token params body => exact shadows_pure (c.expr hn (c.made scope hn))
  | call token callee args =>
      exact shadows_call hn hparts fun f values hf hvalues => shadows_apply hbodies hf hvalues

/-- The statements of a block or a program. -/
theorem shadows_stmts {n : Node} {stmts : List Stmt} (hn : c.node n)
    (hstmts : n.operands = stmts.map .stmt)
    (hparts : ∀ m ∈ n.operands, c.ShadowsAt final sub sub' m) :
    c.Shadows (Passes final) (sequence (fun s => sub scope (.stmt s)) stmts none)
      (sequence (fun s => sub' scope (.stmt s)) stmts none)
      fun r => r = none ∨ c.gives n (n.conclude r) := by
  refine shadows_sequence (fun stmt hmem => ?_) (.inl rfl)
  have hpart : Node.stmt stmt ∈ n.operands := by
    rw [hstmts]
    exact List.mem_map_of_mem hmem
  have hhands : n.uses (.stmt stmt) = false := by
    cases n with
    | program p => rfl
    | stmt s => cases s <;> rfl
    | expr e => rfl
  exact (hparts _ hpart scope).mono fun r hr => .inr (c.handedOn hn hpart hhands hr)

theorem shadows_evalStmt {stmt : Stmt} (hn : c.node (.stmt stmt))
    (hparts : ∀ m ∈ (Node.stmt stmt).operands, c.ShadowsAt final sub sub' m) :
    c.Shadows (Passes final) (evalStmt sub scope stmt) (evalStmt sub' scope stmt)
      (c.gives (.stmt stmt)) := by
  cases stmt with
  | missing => exact shadows_pure (c.error _ _)
  | bind token id value =>
      refine shadows_part hn (.head _) rfl (hparts _ (.head _)) fun v hv => ?_
      refine shadows_bind_free (shadows_note _) fun _ _ => ?_
      refine shadows_bind_free (shadows_bindName scope id.name hv) fun _ _ => ?_
      exact shadows_pure (c.void _)
  | ret token value =>
      refine shadows_part hn (.head _) rfl (hparts _ (.head _)) fun v hv => ?_
      exact shadows_pure (c.returned hn hv)
  | expr token value =>
      exact (hparts _ (.head _) scope).mono fun r hr => c.handedOn hn (.head _) rfl hr
  | block body =>
      refine (shadows_stmts hn rfl hparts).mono fun r hr => ?_
      rcases hr with rfl | hr
      · exact c.void _
      · exact hr

theorem shadows_evalProgram {p : Program} (hn : c.node (.program p))
    (hparts : ∀ m ∈ (Node.program p).operands, c.ShadowsAt final sub sub' m) :
    c.Shadows (Passes final) (evalProgram sub scope p) (evalProgram sub' scope p)
      (c.gives (.program p)) := by
  refine shadows_bind (shadows_stmts hn rfl hparts) (fun r hr => ?_) fun r s hends => ?_
  · refine shadows_pure ?_
    rcases hr with rfl | hr
    · exact c.void _
    · exact hr
  · rintro fault rfl
    exact hends _ s rfl fault rfl

/-- One node, if the evaluators for its parts and for the bodies of functions are in order. -/
theorem shadows_step {n : Node} (hn : c.node n)
    (hparts : ∀ m ∈ n.operands, c.ShadowsAt final sub sub' m)
    (hbodies : c.ShadowsBodies final sub sub') : c.ShadowsAt final (step sub) (step sub') n := by
  intro scope
  refine shadows_bind_free (shadows_note _) fun _ _ => ?_
  cases n with
  | program p => exact shadows_evalProgram hn hparts
  | stmt stmt => exact shadows_evalStmt hn hparts
  | expr e => exact shadows_evalExpr hn hparts hbodies

/-- The second evaluator shadows the first one at every node of the contract. -/
def Respects (c : Contract) (final : Fault → State → Prop) (sub sub' : Evaluator) : Prop :=
  ∀ n, c.node n → c.ShadowsAt final sub sub' n

theorem Respects.parts (h : c.Respects final sub sub') {n : Node} (hn : c.node n) :
    ∀ m ∈ n.operands, c.ShadowsAt final sub sub' m := fun m hm => h m (c.operands hn hm)

theorem Respects.bodies (h : c.Respects final sub sub') : c.ShadowsBodies final sub sub' :=
  fun _ hbody => h _ hbody

theorem respects_exhausted :
    c.Respects final (fun _ _ => exhausted) (fun _ _ => exhausted) :=
  fun _ _ _ _ _ => ⟨fun _ _ hrun => (by cases hrun), fun _ => rfl⟩

end Evaluator

end Contract

end Evaluation

end Monkey
