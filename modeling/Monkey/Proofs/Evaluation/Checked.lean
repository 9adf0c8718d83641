import Monkey.Interpreter.Basic
import Monkey.Proofs.Evaluation.Simulation
import Monkey.Proofs.Grammar.Wholeness
import Monkey.Proofs.Scope.Reachable
import Monkey.Proofs.Token.Scanning

/-!
# Programs that are read never get stuck

An operand without a value would leave evaluation stuck, and a node or an operator that it does not
know would make it fall back on an error. Neither comes about with what the grammar reads, not even
with what is left of a source with faults, in a session that starts with nothing bound and evaluates
one source after another.

`evalChecked` evaluates likewise and looks at the result of every node on the way, and it gets stuck
at once if the node cannot have such a result. That it does the same as `eval` is the statement:
what `acceptable` says then holds at every node that is met, the bodies of the functions called
included.
The proof is a simulation of one by the other, in which no scope and no token changes. What is
carried along is that all nodes, those of the functions in the heap too, are whole and that their
symbols are spelled as such.
-/

namespace Monkey

open Grammar

/-- Whether the fault says that evaluation does not know a node, a sign or an operator of
integers. -/
def Value.Fault.isFallback : Value.Fault → Bool
  | .unknownNode => true
  | .unknownUnary op _ => op != utf8 "!" && op != utf8 "-"
  | .unknownBinary .integer _ .integer => true
  | _ => false

namespace Node

variable {T : Token → Prop}

/-- A block is whole, although no statement of a program is one. -/
def Whole (T : Token → Prop) : Node → Prop
  | program p => p.Whole T
  | stmt (.block body) => body.Whole T
  | stmt s => s.Whole T
  | expr e => e.Whole T

theorem whole_stmt {s : Stmt} (h : s.Whole T) : (stmt s).Whole T := by
  cases s with
  | block body => exact False.elim h.1
  | _ => exact h

theorem Whole.operand {n m : Node} (h : n.Whole T) (hm : m ∈ n.operands) : m.Whole T := by
  have hstmts : ∀ {stmts : List Stmt}, (∀ s ∈ stmts, s.Whole T) → m ∈ stmts.map stmt →
      m.Whole T := by
    intro stmts hwhole hmem
    obtain ⟨s, hs, rfl⟩ := List.mem_map.mp hmem
    exact whole_stmt (hwhole s hs)
  have hlast : ∀ {e : Expr}, e.Whole T → m ∈ [expr e] → m.Whole T := by
    intro e he hmem
    rw [List.mem_singleton.mp hmem]
    exact he
  cases n with
  | program p => exact hstmts (Program.whole_iff.mp h) hm
  | stmt s =>
      cases s with
      | missing => cases hm
      | bind token id value => exact hlast (Stmt.whole_bind.mp h).2.2.2.2 hm
      | ret token value => exact hlast (Stmt.whole_ret.mp h).2.2 hm
      | expr token value => exact hlast (Stmt.whole_expr.mp h) hm
      | block body =>
          cases body with
          | mk token stmts => exact hstmts (Block.whole_iff.mp h).2.2 hm
  | expr e =>
      cases e with
      | unary token op right => exact hlast (Expr.whole_unary.mp h).2.2.2 hm
      | binary token op left right =>
          obtain ⟨-, -, -, hleft, hright⟩ := Expr.whole_binary.mp h
          rcases List.mem_cons.mp hm with rfl | hm
          · exact hleft
          · exact hlast hright hm
      | cond token condition consequence alternative =>
          obtain ⟨-, -, hcondition, hconsequence, halternative⟩ := Expr.whole_cond.mp h
          rcases List.mem_cons.mp hm with rfl | hm
          · exact hcondition
          · rcases List.mem_cons.mp hm with rfl | hm
            · exact hconsequence
            · obtain ⟨block, hblock, rfl⟩ := List.mem_map.mp hm
              exact halternative block (Option.mem_toList.mp hblock)
      | call token callee args =>
          obtain ⟨-, -, hcallee, hargs⟩ := Expr.whole_call.mp h
          rcases List.mem_cons.mp hm with rfl | hm
          · exact hcallee
          · obtain ⟨arg, harg, rfl⟩ := List.mem_map.mp hm
            exact hargs arg harg
      | _ => cases hm

end Node

namespace Value

theorem isFallback_unary {op : Bytes} (hop : op = utf8 "!" ∨ op = utf8 "-") {v : Value}
    {fault : Fault} (h : Value.unary op v = .error fault) : fault.isFallback = false := by
  have hknown : ∀ kind, (Fault.unknownUnary op kind).isFallback = false := by
    rcases hop with rfl | rfl <;> intro kind <;> rfl
  unfold Value.unary at h
  split at h
  · cases h
  · split at h
    · split at h
      · cases h
      · cases h
        exact hknown _
    · cases h
      exact hknown _

theorem isFallback_binaryInt {op : Bytes} (hop : op ∈ binaryOperators.map Token.Kind.text)
    {m n : Int64} {fault : Fault} (h : Value.binaryInt op m n = .error fault) :
    fault.isFallback = false := by
  have htexts : binaryOperators.map Token.Kind.text =
      ["==", "!=", "<", ">", "+", "-", "*", "/"].map utf8 := by decide
  simp only [Value.binaryInt, ite_eq_iff, Value.ofBool, reduceCtorEq, and_false, false_or, or_false,
    Value.error.injEq] at h
  obtain ⟨hadd, hsub, hmul, ⟨-, -, rfl⟩ | ⟨hdiv, hlt, hgt, heq, hne, -⟩⟩ := h
  · rfl
  · rw [htexts] at hop
    exact absurd hop (by simp [hadd, hsub, hmul, hdiv, hlt, hgt, heq, hne])

theorem isFallback_binary {op : Bytes} (hop : op ∈ binaryOperators.map Token.Kind.text)
    {u v : Value} {fault : Fault} (h : Value.binary op u v = .error fault) :
    fault.isFallback = false := by
  unfold Value.binary at h
  split at h
  · exact isFallback_binaryInt hop h
  · unfold Value.binaryBool at h
    split at h
    · cases h
    · split at h
      · cases h
      · cases h
        rfl
  · next hint _ =>
      split at h
      · cases h
        cases u <;> cases v <;> first | rfl | exact absurd rfl (hint _ _ rfl)
      · cases h
        rfl

end Value

namespace Evaluation

open Monkey.Evaluation.Action

/-- Whether an evaluation of the node may end with that result: none at all only of a program, a
binding or a block, and never an error to fall back on. -/
def acceptable (n : Node) : Option Value → Bool
  | none => n.mayBeVoid
  | some (.error fault) => !fault.isFallback
  | some _ => true

/-- Evaluation that gets stuck at the first node whose result is not the way it should be. -/
def evalChecked (ok : Node → Option Value → Bool) : Nat → Evaluator
  | 0 => fun _ _ => exhausted
  | bound + 1 => fun scope n => do
    let result ← step (evalChecked ok bound) scope n
    if ok n result then pure result else stuck

/-- Whole nodes are evaluated, in which symbols are spelled as such. -/
def spelled : Discipline where
  node n := n.Whole Token.SymbolText
  fault fault := fault.isFallback = false
  operands := Node.Whole.operand
  body h := (Expr.whole_function.mp h).2.2.2
  missing h := False.elim (h.elim And.left And.left)
  unary := by
    intro token op right v fault hn
    obtain ⟨hkind, rfl, htext, -⟩ := Expr.whole_unary.mp hn
    have hsigns : ∀ kind ∈ signs, kind ∈ Token.symbols ∧
        (kind.text = utf8 "!" ∨ kind.text = utf8 "-") := by decide
    obtain ⟨hsymbol, hop⟩ := hsigns _ hkind
    rw [← htext hsymbol] at hop
    exact Value.isFallback_unary hop
  binary := by
    intro token op left right u v fault hn
    obtain ⟨hkind, rfl, htext, -⟩ := Expr.whole_binary.mp hn
    have hsymbols : ∀ kind ∈ binaryOperators, kind ∈ Token.symbols := by decide
    have hop := List.mem_map_of_mem (f := Token.Kind.text) hkind
    rw [← htext (hsymbols _ hkind)] at hop
    exact Value.isFallback_binary hop
  unbound _ := rfl
  notAFunction _ := rfl
  wrongArity _ _ := rfl

namespace Renaming

/-- Nothing changes. -/
def same : Renaming := ofScopes id strictMono_id

variable {d : Discipline} {size : Nat}

theorem value_same {v : Value} (hv : d.Fits size v) : same.value v = v :=
  value_ofScopes_of_fits (fun _ _ => rfl) hv

/-- A heap in which everything fits is found again in itself. -/
theorem image_same {h : Heap} (hordered : h.Ordered)
    (hfits : ∀ id, ∀ entry ∈ h.bindings id, d.Fits h.size entry.2) : same.Image d h h where
  ordered := hordered
  next _ := rfl
  outer id := by
    have hsame : (h.outer? id).map same.scope = h.outer? id := Option.map_id'
    exact hsame.symm
  bindings id := by
    change List.Forall₂ _ (h.bindings id) (h.bindings id)
    rw [List.forall₂_same]
    intro entry hentry
    have hv := hfits id entry hentry
    exact ⟨rfl, (value_same hv).symm, hv⟩

theorem Image.eq_of_same {h h' : Heap} (himage : same.Image d h h') : h' = h := by
  refine Heap.ext_scopes (Heap.Matches.apply_size himage).symm (fun id => ?_) fun id => ?_
  · have houter : h'.outer? id = (h.outer? id).map _ := himage.outer id
    exact houter.trans Option.map_id'
  · have hbindings : List.Forall₂ _ (h.bindings id) (h'.bindings id) := himage.bindings id
    have heq : List.Forall₂ Eq (h.bindings id) (h'.bindings id) := by
      refine hbindings.imp fun entry entry' hentry => ?_
      obtain ⟨hname, hvalue, hv⟩ := hentry
      rw [value_same hv] at hvalue
      exact Prod.ext hname.symm hvalue.symm
    rw [List.forall₂_eq_eq_eq] at heq
    exact heq.symm

theorem Result.eq_of_same {b : Bool} {r r' : Option Value} (hresult : same.Result d b size r r') :
    r' = r := by
  obtain ⟨rfl, hfits, -⟩ := hresult
  cases r with
  | none => rfl
  | some v => exact congrArg some (value_same (hfits v rfl))

end Renaming

section Checks

open Renaming

variable {size : Nat}

theorem acceptable_of_result {n : Node} {r : Option Value}
    (hresult : same.Result spelled n.mayBeVoid size r r) : acceptable n r = true := by
  obtain ⟨-, hfits, hvoid⟩ := hresult
  cases r with
  | none => exact hvoid rfl
  | some v =>
      cases v with
      | error fault =>
          have hfault : fault.isFallback = false := hfits _ rfl
          simp [acceptable, hfault]
      | _ => rfl

/-- A check that never fails changes nothing. -/
theorem simulates_check {d : Discipline} {α β : Type} {x : Action α} {y : Action β}
    {Q : Nat → α → β → Prop} (hx : same.Simulates d size x y Q) {ok : β → Bool}
    (hok : ∀ size a b, Q size a b → ok b = true) :
    same.Simulates d size x (do let b ← y; if ok b then pure b else stuck) Q := by
  intro s t hs himage
  have hxy := hx s t hs himage
  generalize x s = o at hxy ⊢
  generalize hy : y t = o' at hxy
  cases hxy with
  | exhausted =>
      rw [bind_exhausted hy]
      exact .exhausted
  | @done a s' b t' h =>
      rw [bind_done hy, if_pos (hok _ a b h.2)]
      exact .done h

theorem respects_evalChecked (bound : Nat) :
    same.Respects spelled (eval bound) (evalChecked acceptable bound) := by
  induction bound with
  | zero =>
      intro size scope n _ _ s t _ _
      exact .exhausted
  | succ bound ih =>
      intro size scope n hn hscope
      refine simulates_check (respects_step ih hn hscope) fun size' r r' hresult => ?_
      have hnode : same.node n = n := node_ofScopes n
      obtain rfl := hresult.eq_of_same
      rw [hnode]
      exact acceptable_of_result hresult

end Checks

/-- The heaps of sessions that start with nothing bound and evaluate what is read of any sources,
with whatever faults. -/
inductive Reached : Heap → Prop where
  | start : Reached (Heap.empty.alloc none)
  | run {h : Heap} {bound : Nat} {source : Bytes} {tracing : Bool} {events : List Event}
      {r : Option Value} {s : State} (before : Reached h)
      (hrun : eval bound globalScope (.program (parseSource source tracing).program) ⟨h, events⟩ =
        .done r s) : Reached s.heap

theorem spelled_parseSource (source : Bytes) (tracing : Bool) :
    spelled.node (.program (parseSource source tracing).program) :=
  whole_parse (Token.symbolText_ofSource source) tracing

/-- The evaluator `sub` goes along with `eval` in heaps that are found again in themselves. -/
theorem agree_of_respects {sub : Evaluator} {bound : Nat}
    (hsub : Renaming.same.Respects spelled (eval bound) sub) {h : Heap} (hpos : 0 < h.size)
    (himage : Renaming.same.Image spelled h h) {n : Node} (hn : spelled.node n)
    (events : List Event) :
    (eval bound globalScope n ⟨h, events⟩).Agree
      (fun r s r' s' => r' = r ∧ s' = s ∧ h.size ≤ s.heap.size ∧
        Renaming.same.Image spelled s.heap s.heap) (sub globalScope n ⟨h, events⟩) := by
  have hagree := hsub hn hpos ⟨h, events⟩ ⟨h, events⟩ rfl himage
  rw [show Renaming.same.node n = n from Renaming.node_ofScopes n] at hagree
  refine hagree.mono ?_
  rintro r ⟨heap, new⟩ r' ⟨heap', new'⟩ ⟨⟨hsize, himage', ⟨news, hnew, hnew'⟩⟩, hresult⟩
  obtain rfl := himage'.eq_of_same
  have hevents : new' = new := hnew'.trans hnew.symm
  exact ⟨hresult.eq_of_same, by rw [hevents], hsize, himage'⟩

theorem Reached.image {h : Heap} (hreached : Reached h) :
    0 < h.size ∧ Renaming.same.Image spelled h h := by
  induction hreached with
  | start =>
      refine ⟨by simp, Renaming.image_same ?_ ?_⟩
      · exact (Heap.Reachable.alloc .empty (by simp)).ordered
      · intro id entry hentry
        rw [Heap.bindings_alloc, Heap.bindings_of_size_le (Nat.zero_le id)] at hentry
        cases hentry
  | @run h bound source tracing events r s before hrun ih =>
      have hagree := agree_of_respects (Renaming.respects_eval bound) ih.1 ih.2
        (spelled_parseSource source tracing) events
      rw [hrun] at hagree
      cases hagree with
      | done hdone => exact ⟨Nat.lt_of_lt_of_le ih.1 hdone.2.2.1, hdone.2.2.2⟩

/-- In a session no source that is read gets stuck, and no check of a result fails on the way. -/
theorem Reached.evalChecked_eq_eval {h : Heap} (hreached : Reached h) (source : Bytes)
    (tracing : Bool) (bound : Nat) (events : List Event) :
    let n := Node.program (parseSource source tracing).program
    eval bound globalScope n ⟨h, events⟩ ≠ .stuck ∧
      evalChecked acceptable bound globalScope n ⟨h, events⟩ =
        eval bound globalScope n ⟨h, events⟩ := by
  intro n
  obtain ⟨hpos, himage⟩ := hreached.image
  have hagree := agree_of_respects (respects_evalChecked bound) hpos himage
    (spelled_parseSource source tracing) events
  generalize eval bound globalScope n ⟨h, events⟩ = o at hagree ⊢
  generalize evalChecked acceptable bound globalScope n ⟨h, events⟩ = o' at hagree ⊢
  cases hagree with
  | exhausted => exact ⟨nofun, rfl⟩
  | done hdone =>
      obtain ⟨rfl, rfl, -⟩ := hdone
      exact ⟨nofun, rfl⟩

/-- Two sources with faults one after the other. The function that the first one leaves behind has
no result, and the second one calls it. -/
theorem Reached.evalChecked_eq_eval_faulty :
    let first := parseSource
      (utf8 "let x 5; let f = fn(a) \x7b let b = a \x7d; let n = f(1)") false
    let second := parseSource
      (utf8 "(1 + ; if (!f(n)) \x7b let m = n \x7d else \x7b -f(2) \x7d") false
    first.faults ≠ [] ∧ second.faults ≠ [] ∧
      ∃ r s, eval 20 globalScope (.program first.program) ⟨Heap.empty.alloc none, []⟩ = .done r s ∧
        eval 20 globalScope (.program second.program) s ≠ .stuck ∧
        evalChecked acceptable 20 globalScope (.program second.program) s =
          eval 20 globalScope (.program second.program) s := by
  intro first second
  have hrun : (eval 20 globalScope (.program first.program)
      ⟨Heap.empty.alloc none, []⟩).isDone = true := by decide +kernel
  obtain ⟨r, s, hrun⟩ := Outcome.exists_of_isDone hrun
  refine ⟨by decide +kernel, by decide +kernel, r, s, hrun, ?_⟩
  exact (Reached.start.run hrun).evalChecked_eq_eval _ false 20 s.events

end Evaluation

end Monkey
