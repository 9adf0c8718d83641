import Monkey.Proofs.Evaluation.Invariant
import Monkey.Proofs.Scope.Matching
import Monkey.Proofs.Tree.Relabel

/-!
# Two evaluations side by side

A second evaluation may find its scopes under other numbers and its nodes with other tokens than a
first one: neither the number of a scope nor a token is ever looked at. `Renaming` says what
corresponds to what, and `Simulates` that one action follows another: they come to an end together,
with results and heaps that correspond and with the same events, or both are cut off. That either
of them gets stuck is not among the possibilities: an expression always has a value, and only
programs, bindings and blocks may be without one.

A `Discipline` narrows down the nodes that are evaluated, and with them the faults that can come of
it. As with a single evaluation, one lemma for each function of the evaluator says that two
evaluations of it stay side by side if the two evaluators they are given do; `respects_step` is the
sum of them. The two evaluators need not be the same.
-/

namespace Monkey

namespace Node

/-- A node with its tokens changed. -/
def relabel (f g : Token → Token) : Node → Node
  | program p => program (p.relabel f g)
  | stmt s => stmt (s.relabel f g)
  | expr e => expr (e.relabel f g)

theorem kind?_relabel (f g : Token → Token) (n : Node) : (n.relabel f g).kind? = n.kind? := by
  cases n with
  | program p => rfl
  | stmt s => cases s <;> rfl
  | expr e =>
      cases e with
      | cond token condition consequence alternative => cases alternative <;> rfl
      | _ => rfl

/-- Whether an evaluation of the node may end without a value. -/
def mayBeVoid : Node → Bool
  | program _ => true
  | stmt (.bind _ _ _) => true
  | stmt (.block _) => true
  | _ => false

end Node

/-- Whether a value holds no other value and no scope. -/
def Value.isAtom : Value → Bool
  | .ret _ => false
  | .function _ _ _ => false
  | _ => true

theorem Value.isAtom_unary (op : Bytes) (right : Value) : (Value.unary op right).isAtom = true :=
  Value.unary_elim (P := fun v => v.isAtom = true) (fun _ => rfl) (fun _ => rfl) (fun _ => rfl) op
    right

theorem Value.isAtom_binary (op : Bytes) (left right : Value) :
    (Value.binary op left right).isAtom = true :=
  Value.binary_elim (P := fun v => v.isAtom = true) (fun _ => rfl) (fun _ => rfl) (fun _ => rfl) op
    left right

namespace Evaluation

open Value (Fault)
open Monkey.Evaluation.Action

/-- Which nodes are evaluated, and which faults can come of it. -/
structure Discipline where
  node : Node → Prop
  fault : Fault → Prop
  operands : ∀ {n m}, node n → m ∈ n.operands → node m
  body : ∀ {token params body}, node (.expr (.function token params body)) →
    node (.stmt (.block body))
  missing : node (.expr .missing) ∨ node (.stmt .missing) → fault .unknownNode
  unary : ∀ {token op right v e}, node (.expr (.unary token op right)) →
    Value.unary op v = .error e → fault e
  binary : ∀ {token op left right u v e}, node (.expr (.binary token op left right)) →
    Value.binary op u v = .error e → fault e
  unbound : ∀ name, fault (.unbound name)
  notAFunction : ∀ kind, fault (.notAFunction kind)
  wrongArity : ∀ got want, fault (.wrongArity got want)

namespace Discipline

/-- Any node is evaluated. -/
def lax : Discipline where
  node _ := True
  fault _ := True
  operands _ _ := trivial
  body _ := trivial
  missing _ := trivial
  unary _ _ := trivial
  binary _ _ := trivial
  unbound _ := trivial
  notAFunction _ := trivial
  wrongArity _ _ := trivial

variable (d : Discipline)

/-- The scope of a function is one of the first `size` ones and its body is evaluated, and an error
is one that may come up. -/
def Fits (size : Nat) : Value → Prop
  | .ret inner => Fits size inner
  | .error fault => d.fault fault
  | .function _ body scope => scope < size ∧ d.node (.stmt (.block body))
  | _ => True

variable {d}

theorem Fits.mono {size size' : Nat} (hsize : size ≤ size') :
    ∀ {v : Value}, d.Fits size v → d.Fits size' v
  | .ret inner, hv => @Fits.mono size size' hsize inner hv
  | .function _ _ _, hv => ⟨Nat.lt_of_lt_of_le hv.1 hsize, hv.2⟩
  | .error _, hv => hv
  | .int _, _ => trivial
  | .bool _ _, _ => trivial
  | .null _, _ => trivial

theorem fits_of_isAtom {size : Nat} {v : Value} (hatom : v.isAtom = true)
    (herror : ∀ e, v = .error e → d.fault e) : d.Fits size v := by
  cases v with
  | error e => exact herror e rfl
  | ret inner => cases hatom
  | function params body scope => cases hatom
  | _ => trivial

end Discipline

/-- How the scopes and the tokens of one evaluation are found in another one. -/
structure Renaming where
  scope : ScopeId → ScopeId
  strictMono : StrictMono scope
  /-- The tokens of nodes. -/
  token : Token → Token
  /-- The tokens with which expression statements start. -/
  start : Token → Token

namespace Renaming

variable (T : Renaming) (d : Discipline)

/-- What corresponds to a node. -/
abbrev node (n : Node) : Node := n.relabel T.token T.start

/-- What corresponds to a value. -/
def value : Value → Value
  | .ret inner => .ret (value inner)
  | .function params body scope =>
    .function (params.map (Ident.relabel T.token)) (body.relabel T.token T.start) (T.scope scope)
  | v => v

theorem kind_value (v : Value) : (T.value v).kind = v.kind := by cases v <;> rfl

theorem isTruthy_value (v : Value) : (T.value v).isTruthy = v.isTruthy := by cases v <;> rfl

theorem value_of_isAtom {v : Value} (h : v.isAtom = true) : T.value v = v := by
  cases v with
  | ret inner => cases h
  | function params body scope => cases h
  | _ => rfl

theorem unary_value (op : Bytes) (v : Value) : Value.unary op (T.value v) = Value.unary op v := by
  cases v <;> rfl

theorem binary_value (op : Bytes) (u v : Value) :
    Value.binary op (T.value u) (T.value v) = Value.binary op u v := by
  cases u <;> cases v <;> rfl

theorem endsList_map (r : Option Value) : endsList (r.map T.value) = endsList r := by
  cases r with
  | none => rfl
  | some v => cases v <;> rfl

theorem programResult_map (r : Option Value) :
    programResult (r.map T.value) = (programResult r).map T.value := by
  cases r with
  | none => rfl
  | some v => cases v <;> rfl

theorem callResult_map (r : Option Value) :
    callResult (r.map T.value) = T.value (callResult r) := by
  cases r with
  | none => rfl
  | some v => cases v <;> rfl

theorem blockValue_map (r : Option Value) :
    blockValue (r.map T.value) = T.value (blockValue r) := by
  cases r <;> rfl

/-- The value corresponds to the other one and fits into a heap of that size. -/
def Carries (size : Nat) (v v' : Value) : Prop := v' = T.value v ∧ d.Fits size v

/-- The second heap holds what corresponds to the first one. -/
def Image (h h' : Heap) : Prop := h.Matches T.scope (T.Carries d h.size) h'

/-- The results correspond, and there is one unless the evaluation may end without. -/
def Result (mayBeVoid : Bool) (size : Nat) (r r' : Option Value) : Prop :=
  r' = r.map T.value ∧ (∀ v ∈ r, d.Fits size v) ∧ (r = none → mayBeVoid = true)

/-- Two evaluations have come from one pair of states to another one. -/
structure Advances (s t s' t' : State) : Prop where
  size : s.heap.size ≤ s'.heap.size
  image : T.Image d s'.heap t'.heap
  events : ∃ new, s'.events = new ++ s.events ∧ t'.events = new ++ t.events

end Renaming

/-- Both actions come to an end and `Q` holds, or both are cut off. -/
inductive Outcome.Agree {α β : Type} (Q : α → State → β → State → Prop) :
    Outcome α → Outcome β → Prop where
  | done {a : α} {s : State} {b : β} {t : State} (h : Q a s b t) : Agree Q (.done a s) (.done b t)
  | exhausted : Agree Q .exhausted .exhausted

theorem Outcome.Agree.mono {α β : Type} {Q Q' : α → State → β → State → Prop} {o : Outcome α}
    {o' : Outcome β} (h : o.Agree Q o') (hQ : ∀ a s b t, Q a s b t → Q' a s b t) :
    o.Agree Q' o' := by
  cases h with
  | done h => exact .done (hQ _ _ _ _ h)
  | exhausted => exact .exhausted

namespace Renaming

variable {T : Renaming} {d : Discipline} {α β α' β' : Type} {size : Nat}

theorem Advances.trans {s₁ t₁ s₂ t₂ s₃ t₃ : State} (h : T.Advances d s₁ t₁ s₂ t₂)
    (h' : T.Advances d s₂ t₂ s₃ t₃) : T.Advances d s₁ t₁ s₃ t₃ := by
  obtain ⟨new, hs, ht⟩ := h.events
  obtain ⟨new', hs', ht'⟩ := h'.events
  refine ⟨Nat.le_trans h.size h'.size, h'.image, new' ++ new, ?_, ?_⟩
  · rw [hs', hs, List.append_assoc]
  · rw [ht', ht, List.append_assoc]

theorem Advances.refl {s t : State} (h : T.Image d s.heap t.heap) : T.Advances d s t s t :=
  ⟨Nat.le_refl _, h, [], rfl, rfl⟩

/-- From heaps that correspond, the first of which has the given size, the second action follows the
first one. -/
def Simulates (T : Renaming) (d : Discipline) (size : Nat) (x : Action α) (y : Action β)
    (Q : Nat → α → β → Prop) : Prop :=
  ∀ s t, s.heap.size = size → T.Image d s.heap t.heap →
    (x s).Agree (fun a s' b t' => T.Advances d s t s' t' ∧ Q s'.heap.size a b) (y t)

section Actions

variable {Q : Nat → α → β → Prop}

theorem simulates_pure {a : α} {b : β} (h : Q size a b) :
    T.Simulates d size (pure a) (pure b) Q := by
  rintro s t rfl himage
  exact .done ⟨.refl himage, h⟩

theorem simulates_bind {P : Nat → α' → β' → Prop} {x : Action α'} {y : Action β'}
    {f : α' → Action α} {g : β' → Action β} (hx : T.Simulates d size x y P)
    (hf : ∀ a b size', size ≤ size' → P size' a b → T.Simulates d size' (f a) (g b) Q) :
    T.Simulates d size (x >>= f) (y >>= g) Q := by
  rintro s t rfl himage
  have hxy := hx s t rfl himage
  generalize hxs : x s = o at hxy
  generalize hyt : y t = o' at hxy
  cases hxy with
  | exhausted =>
      rw [bind_exhausted hxs, bind_exhausted hyt]
      exact .exhausted
  | @done a s₁ b t₁ h =>
      obtain ⟨hadvance, hab⟩ := h
      rw [bind_done hxs, bind_done hyt]
      refine (hf a b _ hadvance.size hab s₁ t₁ rfl hadvance.image).mono ?_
      rintro a' s₂ b' t₂ ⟨hadvance', hab'⟩
      exact ⟨hadvance.trans hadvance', hab'⟩

theorem simulates_note (e : Event) : T.Simulates d size (note e) (note e) fun _ _ _ => True := by
  rintro s t rfl himage
  exact .done ⟨⟨Nat.le_refl _, himage, [e], rfl, rfl⟩, trivial⟩

theorem simulates_lookup? (scope : ScopeId) (name : Bytes) :
    T.Simulates d size (lookup? scope name) (lookup? (T.scope scope) name) (T.Result d true) := by
  rintro s t rfl himage
  refine .done ⟨.refl himage, ?_⟩
  beta_reduce
  have hlookup := Heap.Matches.lookup? himage T.strictMono scope name
  generalize s.heap.lookup? scope name = r at hlookup ⊢
  generalize t.heap.lookup? (T.scope scope) name = r' at hlookup ⊢
  cases hlookup with
  | none => exact ⟨rfl, by simp, fun _ => rfl⟩
  | some hv => exact ⟨congrArg some hv.1, by simpa using hv.2, fun _ => rfl⟩

theorem simulates_bindName {scope : ScopeId} (hscope : scope < size) (name : Bytes) {v : Value}
    (hv : d.Fits size v) :
    T.Simulates d size (bindName scope name v) (bindName (T.scope scope) name (T.value v))
      fun _ _ _ => True := by
  rintro s t rfl himage
  have hbound : T.Image d (s.heap.bind scope name v)
      (t.heap.bind (T.scope scope) name (T.value v)) := by
    rw [Image, Heap.size_bind]
    exact Heap.Matches.bind himage T.strictMono hscope name ⟨rfl, hv⟩
  exact .done ⟨⟨Nat.le_of_eq (Heap.size_bind _ _ _ _).symm, hbound, [], rfl, rfl⟩, trivial⟩

/-- Both make a scope for a call, and the numbers of these correspond. -/
theorem simulates_enclose {scope : ScopeId} (hscope : scope < size) (names : List Bytes)
    {args : List Value} (hargs : ∀ v ∈ args, d.Fits size v) :
    T.Simulates d size (enclose scope (names.zip args))
      (enclose (T.scope scope) (names.zip (args.map T.value)))
      fun size' inner inner' => inner < size' ∧ inner' = T.scope inner := by
  rintro s t rfl himage
  have hpairs : List.Forall₂ (T.Carries d s.heap.size) args (args.map T.value) := by
    rw [List.forall₂_map_right_iff, List.forall₂_same]
    exact fun v hv => ⟨rfl, hargs v hv⟩
  have hmatch := Heap.Matches.enclose himage T.strictMono hscope names hpairs
  have hgrows : s.heap.size ≤
      ((s.heap.alloc (some scope)).bindAll s.heap.size (names.zip args)).size := by
    rw [Heap.size_bindAll, Heap.size_alloc]
    exact Nat.le_succ _
  refine .done ⟨⟨hgrows, hmatch.mono fun v v' hv => ⟨hv.1, hv.2.mono hgrows⟩, [], rfl, rfl⟩, ?_, ?_⟩
  · simp
  · exact (Heap.Matches.apply_size himage).symm

end Actions

section Results

variable {b : Bool} {v : Value} {r r' : Option Value}

theorem result_some (hv : d.Fits size v) : T.Result d b size (some v) (some (T.value v)) :=
  ⟨rfl, by simpa using hv, nofun⟩

theorem result_error {fault : Fault} (h : d.fault fault) :
    T.Result d b size (some (.error fault)) (some (.error fault)) :=
  @result_some T d size b (.error fault) h

theorem result_atom (hatom : v.isAtom = true) (herror : ∀ e, v = .error e → d.fault e) :
    T.Result d b size (some v) (some v) := by
  have hresult := @result_some T d size b v (d.fits_of_isAtom hatom herror)
  rwa [T.value_of_isAtom hatom] at hresult

theorem Result.void (h : T.Result d b size r r') : T.Result d true size r r' :=
  ⟨h.1, h.2.1, fun _ => rfl⟩

theorem Result.exists_value (h : T.Result d false size r r') :
    ∃ v, r = some v ∧ r' = some (T.value v) ∧ d.Fits size v := by
  obtain ⟨rfl, hfits, hvoid⟩ := h
  cases r with
  | none => cases hvoid rfl
  | some v => exact ⟨v, rfl, rfl, hfits v rfl⟩

theorem fits_callResult (h : ∀ v ∈ r, d.Fits size v) : d.Fits size (callResult r) := by
  unfold callResult
  split
  · next inner => exact h (.ret inner) rfl
  · exact h _ rfl
  · trivial

theorem fits_blockValue (h : ∀ v ∈ r, d.Fits size v) : d.Fits size (blockValue r) := by
  unfold blockValue
  split
  · exact h _ rfl
  · trivial

theorem fits_programResult (h : ∀ v ∈ r, d.Fits size v) : ∀ v ∈ programResult r, d.Fits size v := by
  unfold programResult
  split
  · next inner =>
      rintro v ⟨⟩
      exact h (.ret inner) rfl
  · exact h

end Results

section Evaluator

variable {sub sub' : Evaluator} {scope : ScopeId} {b : Bool}

theorem simulates_operand {x y : Action (Option Value)} {use use' : Value → Action (Option Value)}
    (hx : T.Simulates d size x y (T.Result d false))
    (huse : ∀ v size', size ≤ size' → d.Fits size' v →
      T.Simulates d size' (use v) (use' (T.value v)) (T.Result d b)) :
    T.Simulates d size (operand x use) (operand y use') (T.Result d b) := by
  refine simulates_bind hx fun r r' size' hsize hr => ?_
  obtain ⟨v, rfl, rfl, hv⟩ := hr.exists_value
  have huse' := huse v size' hsize hv
  cases v with
  | error fault => exact simulates_pure (result_error hv)
  | _ => exact huse'

theorem simulates_sequence {sub sub' : Stmt → Action (Option Value)} {stmts : List Stmt}
    {last : Option Value}
    (hsub : ∀ stmt ∈ stmts, ∀ size', size ≤ size' →
      T.Simulates d size' (sub stmt) (sub' (stmt.relabel T.token T.start)) (T.Result d true))
    (hlast : ∀ v ∈ last, d.Fits size v) :
    T.Simulates d size (sequence sub stmts last)
      (sequence sub' (Stmt.relabelEach T.token T.start stmts) (last.map T.value))
      (T.Result d true) := by
  induction stmts generalizing size last with
  | nil => exact simulates_pure ⟨rfl, hlast, fun _ => rfl⟩
  | cons stmt rest ih =>
      refine simulates_bind (hsub stmt (.head _) size (Nat.le_refl _)) fun r r' size' hsize hr => ?_
      obtain ⟨rfl, hfits, -⟩ := hr
      rw [T.endsList_map]
      split
      · exact simulates_pure ⟨rfl, hfits, fun _ => rfl⟩
      · refine ih (fun stmt' hmem size'' hsize' => ?_) hfits
        exact hsub stmt' (.tail _ hmem) size'' (Nat.le_trans hsize hsize')

/-- What corresponds to the values of arguments. -/
def ArgumentValues (T : Renaming) (d : Discipline) (size : Nat) :
    Fault ⊕ List Value → Fault ⊕ List Value → Prop
  | .inl fault, r' => r' = .inl fault ∧ d.fault fault
  | .inr values, r' => r' = .inr (values.map T.value) ∧ ∀ v ∈ values, d.Fits size v

theorem simulates_arguments {sub sub' : Expr → Action (Option Value)} {args : List Expr}
    {done : List Value}
    (hsub : ∀ e ∈ args, ∀ size', size ≤ size' →
      T.Simulates d size' (sub e) (sub' (e.relabel T.token T.start)) (T.Result d false))
    (hdone : ∀ v ∈ done, d.Fits size v) :
    T.Simulates d size (arguments sub args done)
      (arguments sub' (Expr.relabelEach T.token T.start args) (done.map T.value))
      (T.ArgumentValues d) := by
  induction args generalizing size done with
  | nil =>
      refine simulates_pure ⟨?_, fun v hv => hdone v (by simpa using hv)⟩
      rw [List.map_reverse]
  | cons e rest ih =>
      refine simulates_bind (hsub e (.head _) size (Nat.le_refl _)) fun r r' size' hsize hr => ?_
      obtain ⟨v, rfl, rfl, hv⟩ := hr.exists_value
      have hrest : T.Simulates d size' (arguments sub rest (v :: done))
          (arguments sub' (Expr.relabelEach T.token T.start rest) ((v :: done).map T.value))
          (T.ArgumentValues d) := by
        refine ih (fun e' hmem size'' hsize' => ?_) ?_
        · exact hsub e' (.tail _ hmem) size'' (Nat.le_trans hsize hsize')
        · intro u hu
          rcases List.mem_cons.mp hu with rfl | hu
          · exact hv
          · exact (hdone u hu).mono hsize
      cases v with
      | error fault => exact simulates_pure ⟨rfl, hv⟩
      | _ => exact hrest

/-- The second evaluator follows the first one at every node of the discipline, in scopes that
correspond. -/
def Respects (T : Renaming) (d : Discipline) (sub sub' : Evaluator) : Prop :=
  ∀ {size scope n}, d.node n → scope < size →
    T.Simulates d size (sub scope n) (sub' (T.scope scope) (T.node n)) (T.Result d n.mayBeVoid)

theorem simulates_apply (hsub : T.Respects d sub sub') {callee : Value} {args : List Value}
    (hcallee : d.Fits size callee) (hargs : ∀ v ∈ args, d.Fits size v) :
    T.Simulates d size (apply sub callee args) (apply sub' (T.value callee) (args.map T.value))
      (T.Result d false) := by
  have hnot : ∀ kind, T.Simulates d size
      (pure (some (.error (.notAFunction kind))) : Action (Option Value))
      (pure (some (.error (.notAFunction kind)))) (T.Result d false) :=
    fun kind => simulates_pure (result_error (d.notAFunction kind))
  cases callee with
  | function params body scope =>
      obtain ⟨hscope, hbody⟩ := hcallee
      have hnames : (params.map (Ident.relabel T.token)).map Ident.name =
          params.map Ident.name := by
        simp [Ident.relabel]
      simp only [apply, value, List.length_map, hnames]
      split
      · refine simulates_bind (simulates_enclose hscope _ hargs) fun inner _ size' _ hinner => ?_
        obtain ⟨hlt, rfl⟩ := hinner
        refine simulates_bind (hsub hbody hlt) fun r _ size'' _ hr => ?_
        obtain ⟨rfl, hfits, -⟩ := hr
        rw [T.callResult_map]
        exact simulates_pure (result_some (fits_callResult hfits))
      · exact simulates_pure (result_error (d.wrongArity _ _))
  | _ => exact hnot _

/-- A block that stands for an expression. -/
theorem simulates_blockValue (hsub : T.Respects d sub sub') {body : Block}
    (hbody : d.node (.stmt (.block body))) (hscope : scope < size) :
    T.Simulates d size
      (do
        let result ← sub scope (.stmt (.block body))
        pure (some (blockValue result)))
      (do
        let result ← sub' (T.scope scope) (.stmt (.block (body.relabel T.token T.start)))
        pure (some (blockValue result)))
      (T.Result d false) := by
  refine simulates_bind (hsub hbody hscope) fun r _ size' _ hr => ?_
  obtain ⟨rfl, hfits, -⟩ := hr
  rw [T.blockValue_map]
  exact simulates_pure (result_some (fits_blockValue hfits))

theorem simulates_evalExpr (hsub : T.Respects d sub sub') {e : Expr} (he : d.node (.expr e))
    (hscope : scope < size) :
    T.Simulates d size (evalExpr sub scope e)
      (evalExpr sub' (T.scope scope) (e.relabel T.token T.start)) (T.Result d false) := by
  cases e with
  | missing => exact simulates_pure (result_error (d.missing (.inl he)))
  | ident id =>
      refine simulates_bind (simulates_lookup? scope id.name) fun r _ size' _ hr => ?_
      obtain ⟨rfl, hfits, -⟩ := hr
      cases r with
      | none => exact simulates_pure (result_error (d.unbound _))
      | some v => exact simulates_pure (result_some (hfits v rfl))
  | bool token value => exact simulates_pure (result_atom rfl nofun)
  | int token value => exact simulates_pure (result_atom rfl nofun)
  | unary token op right =>
      refine simulates_operand (hsub (d.operands he (.head _)) hscope) fun v size' _ _ => ?_
      rw [T.unary_value]
      exact simulates_pure (result_atom (Value.isAtom_unary op v) fun _ => d.unary he)
  | binary token op left right =>
      refine simulates_operand (hsub (d.operands he (.head _)) hscope) fun u size₁ hsize₁ _ => ?_
      refine simulates_operand (hsub (d.operands he (.tail _ (.head _)))
        (Nat.lt_of_lt_of_le hscope hsize₁)) fun v size₂ _ _ => ?_
      rw [T.binary_value]
      exact simulates_pure (result_atom (Value.isAtom_binary op u v) fun _ => d.binary he)
  | cond token condition consequence alternative =>
      have hcondition := @hsub size scope (.expr condition) (d.operands he (.head _)) hscope
      have hconsequence := d.operands he (.tail _ (.head _))
      cases alternative with
      | none =>
          refine simulates_operand hcondition fun c size' hsize _ => ?_
          rw [T.isTruthy_value]
          split
          · exact simulates_blockValue hsub hconsequence (Nat.lt_of_lt_of_le hscope hsize)
          · exact simulates_pure (result_atom rfl nofun)
      | some block =>
          have halternative := d.operands he (.tail _ (.tail _ (.head _)))
          refine simulates_operand hcondition fun c size' hsize _ => ?_
          rw [T.isTruthy_value]
          split
          · exact simulates_blockValue hsub hconsequence (Nat.lt_of_lt_of_le hscope hsize)
          · exact simulates_blockValue hsub halternative (Nat.lt_of_lt_of_le hscope hsize)
  | function token params body =>
      exact simulates_pure (@result_some T d size false (.function params body scope)
        ⟨hscope, d.body he⟩)
  | call token callee args =>
      refine simulates_operand (hsub (d.operands he (.head _)) hscope) fun f size₁ hsize₁ hf => ?_
      have hargs : ∀ e ∈ args, ∀ size', size₁ ≤ size' →
          T.Simulates d size' (sub scope (.expr e))
            (sub' (T.scope scope) (.expr (e.relabel T.token T.start))) (T.Result d false) := by
        intro e hmem size' hsize'
        have hoperand : Node.expr e ∈ (Node.expr (.call token callee args)).operands :=
          .tail _ (List.mem_map_of_mem hmem)
        exact hsub (d.operands he hoperand)
          (Nat.lt_of_lt_of_le hscope (Nat.le_trans hsize₁ hsize'))
      refine simulates_bind (simulates_arguments hargs (by simp)) fun r r' size₂ hsize₂ hr => ?_
      cases r with
      | inl fault =>
          obtain ⟨rfl, hfault⟩ := hr
          exact simulates_pure (result_error hfault)
      | inr values =>
          obtain ⟨rfl, hvalues⟩ := hr
          exact simulates_apply hsub (hf.mono hsize₂) hvalues

theorem simulates_stmts (hsub : T.Respects d sub sub') {n : Node} {stmts : List Stmt}
    (hn : d.node n) (hstmts : n.operands = stmts.map .stmt) (hscope : scope < size) :
    T.Simulates d size (sequence (fun s => sub scope (.stmt s)) stmts none)
      (sequence (fun s => sub' (T.scope scope) (.stmt s))
        (Stmt.relabelEach T.token T.start stmts) none) (T.Result d true) := by
  refine @simulates_sequence T d size _ _ stmts none (fun stmt hmem size' hsize => ?_) (by simp)
  have hstmt : d.node (.stmt stmt) := by
    refine d.operands hn ?_
    rw [hstmts]
    exact List.mem_map_of_mem hmem
  intro s t hs himage
  refine (hsub hstmt (Nat.lt_of_lt_of_le hscope hsize) s t hs himage).mono ?_
  rintro r s' r' t' ⟨hadvance, hr⟩
  exact ⟨hadvance, hr.void⟩

theorem simulates_evalStmt (hsub : T.Respects d sub sub') {stmt : Stmt} (hs : d.node (.stmt stmt))
    (hscope : scope < size) :
    T.Simulates d size (evalStmt sub scope stmt)
      (evalStmt sub' (T.scope scope) (stmt.relabel T.token T.start))
      (T.Result d (Node.stmt stmt).mayBeVoid) := by
  cases stmt with
  | missing => exact simulates_pure (result_error (d.missing (.inr hs)))
  | bind token id value =>
      refine simulates_operand (hsub (d.operands hs (.head _)) hscope) fun v size₁ hsize₁ hv => ?_
      rw [T.kind_value]
      refine simulates_bind (simulates_note _) fun _ _ size₂ hsize₂ _ => ?_
      have hscope₂ := Nat.lt_of_lt_of_le hscope (Nat.le_trans hsize₁ hsize₂)
      refine simulates_bind (simulates_bindName hscope₂ id.name (hv.mono hsize₂)) ?_
      exact fun _ _ _ _ _ => simulates_pure ⟨rfl, by simp, fun _ => rfl⟩
  | ret token value =>
      refine simulates_operand (hsub (d.operands hs (.head _)) hscope) fun v size' _ hv => ?_
      exact simulates_pure (@result_some T d size' false (.ret v) hv)
  | expr token value => exact hsub (d.operands hs (.head _)) hscope
  | block body =>
      cases body with
      | mk token stmts => exact simulates_stmts hsub hs rfl hscope

theorem simulates_evalProgram (hsub : T.Respects d sub sub') {p : Program}
    (hp : d.node (.program p)) (hscope : scope < size) :
    T.Simulates d size (evalProgram sub scope p)
      (evalProgram sub' (T.scope scope) (p.relabel T.token T.start)) (T.Result d true) := by
  refine simulates_bind (simulates_stmts hsub hp rfl hscope) fun r _ size' _ hr => ?_
  obtain ⟨rfl, hfits, -⟩ := hr
  rw [T.programResult_map]
  exact simulates_pure ⟨rfl, fits_programResult hfits, fun _ => rfl⟩

theorem respects_step (hsub : T.Respects d sub sub') : T.Respects d (step sub) (step sub') := by
  intro size scope n hn hscope
  unfold step
  rw [Node.kind?_relabel]
  refine simulates_bind (simulates_note _) fun _ _ size' hsize _ => ?_
  have hscope' := Nat.lt_of_lt_of_le hscope hsize
  cases n with
  | program p => exact simulates_evalProgram hsub hn hscope'
  | stmt stmt => exact simulates_evalStmt hsub hn hscope'
  | expr e => exact simulates_evalExpr hsub hn hscope'

/-- Evaluation takes the same course under other numbers and with other tokens. -/
theorem respects_eval (bound : Nat) : T.Respects d (eval bound) (eval bound) := by
  induction bound with
  | zero =>
      intro size scope n _ _ s t _ _
      exact .exhausted
  | succ bound ih => exact respects_step ih

end Evaluator

section Scopes

/-- Other numbers for the scopes, and the same tokens. -/
def ofScopes (ρ : ScopeId → ScopeId) (hρ : StrictMono ρ) : Renaming := ⟨ρ, hρ, id, id⟩

variable {ρ : ScopeId → ScopeId} {hρ : StrictMono ρ}

theorem value_ofScopes_function (params : List Ident) (body : Block) (scope : ScopeId) :
    (ofScopes ρ hρ).value (.function params body scope) = .function params body (ρ scope) := by
  have hparams : params.map (Ident.relabel id) = params := List.map_id params
  simp only [value, ofScopes, hparams, Block.relabel_id]

theorem node_ofScopes (n : Node) : (ofScopes ρ hρ).node n = n := by
  cases n with
  | program p => exact congrArg (fun stmts => Node.program ⟨stmts⟩) (Stmt.relabelEach_id p.stmts)
  | stmt s => exact congrArg Node.stmt (Stmt.relabel_id s)
  | expr e => exact congrArg Node.expr (Expr.relabel_id e)

/-- A value does not change if the scopes of its functions keep their numbers. -/
theorem value_ofScopes_of_fits (hfix : ∀ id < size, ρ id = id) :
    ∀ {v : Value}, d.Fits size v → (ofScopes ρ hρ).value v = v
  | .ret inner, hv => congrArg Value.ret (@value_ofScopes_of_fits hfix inner hv)
  | .function params body scope, hv => by rw [value_ofScopes_function, hfix scope hv.1]
  | .int _, _ => rfl
  | .bool _ _, _ => rfl
  | .null _, _ => rfl
  | .error _, _ => rfl

end Scopes

end Renaming

end Evaluation

end Monkey
