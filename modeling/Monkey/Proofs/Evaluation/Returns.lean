import Monkey.Interpreter.Basic
import Monkey.Proofs.Evaluation.Watched
import Monkey.Proofs.Tree.Walking

/-!
# Returns stay hidden

A return takes its value out of blocks and conditions until a call or a program takes it out of
the return. If a condition with a return in one of its blocks is used for its value, then the
return itself becomes a value that can be bound and passed on. A program is disciplined if that
cannot come about by its form: each such condition is the whole of an expression statement. In a
session of disciplined programs no return is ever bound, used or put into another one, and none is
the result of a call or of a program.
-/

namespace Monkey

namespace Node

def isReturn : Node → Bool
  | stmt (.ret _ _) => true
  | _ => false

def isLiteral : Node → Bool
  | expr (.function _ _ _) => true
  | _ => false

/-- Whether a return stands in the node, outside of the function literals in it. -/
def returns (n : Node) : Bool := (n.walk fun m => !m.isLiteral).any isReturn

/-- Whether the node is a condition and a return stands in one of its blocks. -/
def branchReturns : Node → Bool
  | expr (.cond _ _ consequence alternative) =>
    (stmt (.block consequence)).returns ||
      alternative.any fun block => (stmt (.block block)).returns
  | _ => false

/-- Whether the node leaves the conditions directly below it to themselves if they return: it is an
expression statement, or there are none. -/
def sparesReturns : Node → Bool
  | stmt (.expr _ _) => true
  | n => n.operands.all fun m => !m.branchReturns

/-- Whether in the node, its function literals included, a condition that returns is always the
whole of an expression statement. -/
def disciplined (n : Node) : Bool := (n.walk fun _ => true).all sparesReturns

/-- Whether the node can end with a return, if it is disciplined. -/
def mayReturn : Node → Bool
  | program _ => false
  | stmt s => (stmt s).returns
  | expr e => (expr e).branchReturns

variable {n m : Node}

theorem disciplined_iff :
    n.disciplined = true ↔ ∀ m ∈ n.walk fun _ => true, m.sparesReturns = true :=
  List.all_eq_true

theorem disciplined_of_operand (hn : n.disciplined = true) (hm : m ∈ n.operands) :
    m.disciplined = true :=
  disciplined_iff.mpr fun _ hk => disciplined_iff.mp hn _ (mem_walk_of_operand rfl hm hk)

theorem disciplined_body {token : Token} {params : List Ident} {body : Block}
    (h : (expr (.function token params body)).disciplined = true) :
    (stmt (.block body)).disciplined = true :=
  disciplined_iff.mpr fun _ hk => disciplined_iff.mp h _ (mem_walk_of_body rfl hk)

theorem kind?_isSome_of_operand (hm : m ∈ n.operands) : n.kind?.isSome = true := by
  cases n with
  | program p => rfl
  | stmt s => cases s <;> first | rfl | cases hm
  | expr e => cases e <;> first | rfl | cases hm

/-- A part whose value is used does not return. -/
theorem mayReturn_of_uses (hn : n.disciplined = true) (hm : m ∈ n.operands)
    (huses : n.uses m = true) : m.mayReturn = false := by
  have hspares := disciplined_iff.mp hn n (mem_walk_self (kind?_isSome_of_operand hm))
  have hall : (n.operands.all fun m => !m.branchReturns) = true := by
    cases n with
    | stmt s => cases s <;> first | exact hspares | cases huses
    | _ => exact hspares
  have hbranch : m.branchReturns = false := by simpa using List.all_eq_true.mp hall m hm
  cases m with
  | expr e => exact hbranch
  | program p => rfl
  | stmt s => cases n <;> first | cases huses | (rename_i s'; cases s' <;> cases huses)

/-- A return in a part is one in the node. -/
theorem returns_of_operand (hm : m ∈ n.operands) (h : m.returns = true) : n.returns = true := by
  have henter : (!n.isLiteral) = true := by
    cases n with
    | expr e => cases e <;> first | rfl | cases hm
    | _ => rfl
  obtain ⟨k, hk, hreturn⟩ := List.any_eq_true.mp h
  exact List.any_eq_true.mpr ⟨k, mem_walk_of_operand henter hm hk, hreturn⟩

theorem returns_of_branchReturns (h : n.branchReturns = true) : n.returns = true := by
  cases n with
  | expr e =>
      cases e with
      | cond token condition consequence alternative =>
          simp only [branchReturns, Bool.or_eq_true, Option.any_eq_true] at h
          rcases h with h | ⟨block, hblock, h⟩
          · exact returns_of_operand (.tail _ (.head _)) h
          · refine returns_of_operand (.tail _ (.tail _ (List.mem_map_of_mem ?_))) h
            exact Option.mem_toList.mpr hblock
      | _ => cases h
  | _ => cases h

/-- A node may return if a part may the result of which it hands on. -/
theorem mayReturn_of_part (hm : m ∈ n.operands) (hhands : n.uses m = false)
    (hn : ∀ p, n ≠ program p) (h : m.mayReturn = true) : n.mayReturn = true := by
  cases n with
  | program p => exact absurd rfl (hn p)
  | stmt s =>
      refine returns_of_operand hm ?_
      cases m with
      | program p => cases h
      | stmt s' => exact h
      | expr e => exact returns_of_branchReturns h
  | expr e =>
      cases e with
      | cond token condition consequence alternative =>
          simp only [operands, List.mem_cons, List.mem_map, Option.mem_toList] at hm
          rcases hm with rfl | rfl | ⟨block, hblock, rfl⟩
          · cases hhands
          · exact Bool.or_eq_true_iff.mpr (.inl h)
          · exact Bool.or_eq_true_iff.mpr (.inr (by simpa [hblock, mayReturn] using h))
      | unary token op right =>
          obtain rfl := List.mem_singleton.mp hm
          cases hhands
      | binary token op left right =>
          simp only [operands, List.mem_cons, List.not_mem_nil, or_false] at hm
          rcases hm with rfl | rfl <;> cases hhands
      | call token callee args =>
          simp only [operands, List.mem_cons, List.mem_map] at hm
          rcases hm with rfl | ⟨arg, _, rfl⟩ <;> cases hhands
      | _ => cases hm

end Node

def Program.disciplined (p : Program) : Bool := (Node.program p).disciplined

def Value.IsReturn (v : Value) : Prop := v.kind = .ret

/-- The value is no return, and if it is a function its body is disciplined. -/
def Value.Plain : Value → Prop
  | .ret _ => False
  | .function _ body _ => (Node.stmt (.block body)).disciplined = true
  | _ => True

theorem Value.Plain.not_isReturn {v : Value} (h : v.Plain) : ¬v.IsReturn := by
  cases v <;> first | exact h.elim | exact (nomatch ·)

namespace Evaluation

/-- A result that is no return, or a return of a plain value from a node that may return. -/
def ReturnsPlainly (n : Node) (r : Option Value) : Prop :=
  ∀ v ∈ r, (∃ fault, v = .error fault) ∨ v.Plain ∨
    ∃ inner, v = .ret inner ∧ inner.Plain ∧ n.mayReturn = true

theorem ReturnsPlainly.of_part {n m : Node} {r : Option Value} (h : ReturnsPlainly m r)
    (hm : m ∈ n.operands) (hhands : n.uses m = false) (hn : ∀ p, n ≠ .program p) :
    ReturnsPlainly n r := by
  intro v hv
  rcases h v hv with herror | hplain | ⟨inner, heq, hinner, hmay⟩
  · exact .inl herror
  · exact .inr (.inl hplain)
  · exact .inr (.inr ⟨inner, heq, hinner, Node.mayReturn_of_part hm hhands hn hmay⟩)

/-- What a call makes of such a result is no return. -/
theorem plain_callResult {n : Node} {r : Option Value} (h : ReturnsPlainly n r) :
    (∃ fault, callResult r = .error fault) ∨ (callResult r).Plain := by
  cases r with
  | none => exact .inr trivial
  | some v =>
      rcases h v rfl with ⟨fault, rfl⟩ | hplain | ⟨inner, rfl, hinner, -⟩
      · exact .inl ⟨fault, rfl⟩
      · cases v <;> first | exact hplain.elim | exact .inr hplain
      · exact .inr hinner

theorem eq_callResult_of_mem_programResult {r : Option Value} {v : Value}
    (h : v ∈ programResult r) : v = callResult r := by
  cases r with
  | none => cases h
  | some w => cases w <;> exact (Option.mem_some_iff.mp h).symm

def hidingReturns : Contract where
  held := Value.Plain
  node n := n.disciplined = true
  gives := ReturnsPlainly
  operands := Node.disciplined_of_operand
  made _ hn := Node.disciplined_body hn
  body hbody := hbody
  int _ := trivial
  ofBool _ := trivial
  null := trivial
  void _ := by simp [ReturnsPlainly]
  error _ fault := by simp [ReturnsPlainly]
  expr _ hv := by
    rintro _ ⟨⟩
    exact .inr (.inl hv)
  returned _ hv := by
    rintro _ ⟨⟩
    exact .inr (.inr ⟨_, rfl, hv, by simp [Node.mayReturn, Node.returns, Node.walk, Stmt.walk,
      Node.isReturn]⟩)
  used := by
    intro n m v hn hm huses hv
    rcases hv v rfl with herror | hplain | ⟨inner, -, -, hmay⟩
    · exact .inl herror
    · exact .inr hplain
    · rw [Node.mayReturn_of_uses hn hm huses] at hmay
      cases hmay
  handedOn := by
    intro n m r _ hm hhands hr
    cases n with
    | program p =>
        intro v hv
        rw [eq_callResult_of_mem_programResult hv]
        exact (plain_callResult hr).imp_right .inl
    | stmt s => exact hr.of_part hm hhands nofun
    | expr e =>
        cases r with
        | none =>
            rintro _ ⟨⟩
            exact .inr (.inl trivial)
        | some v => exact hr.of_part hm hhands nofun
  called _ hr := plain_callResult hr

/-- Asks that no name is bound to a return, and of a part that ends with a return that its value is
not used, that it is no call and that what is returned is no return itself. -/
def hiddenReturns : Watch where
  part n m r s := s.heap.Holds (¬·.IsReturn) ∧
    ∀ inner, r = some (.ret inner) → ¬inner.IsReturn ∧ n.uses m = false ∧
      ∀ token callee args, m ≠ .expr (.call token callee args)
  call callee args s := s.heap.Holds (¬·.IsReturn) ∧ ¬callee.IsReturn ∧ ∀ v ∈ args, ¬v.IsReturn

theorem allows_hiddenReturns : hidingReturns.Allows (fun _ _ => True) hiddenReturns where
  part := by
    intro n m r s hn hm hr hs _
    refine ⟨hs.mono fun _ => Value.Plain.not_isReturn, ?_⟩
    rintro inner rfl
    rcases hr _ rfl with ⟨fault, heq⟩ | hplain | ⟨_, ⟨⟩, hinner, hmay⟩
    · cases heq
    · exact hplain.elim
    · refine ⟨hinner.not_isReturn, ?_, ?_⟩
      · rcases hm with hm | ⟨body, rfl⟩
        · by_contra huses
          rw [Node.mayReturn_of_uses hn hm (eq_true_of_ne_false huses)] at hmay
          cases hmay
        · cases n with
          | stmt s => cases s <;> rfl
          | _ => rfl
      · rintro token callee args rfl
        cases hmay
  call hcallee hargs hs := ⟨hs.mono fun _ => Value.Plain.not_isReturn, hcallee.not_isReturn,
    fun v hv => (hargs v hv).not_isReturn⟩

/-- The heaps that are left when programs of which `S` holds are evaluated one after the other, from
the empty environment. -/
inductive LeftBy (S : Program → Prop) : Heap → Prop where
  | start : LeftBy S (Heap.empty.alloc none)
  | run {h : Heap} {p : Program} {bound : Nat} {events : List Event} {r : Option Value} {s : State}
      (before : LeftBy S h) (hp : S p)
      (hrun : eval bound globalScope (.program p) ⟨h, events⟩ = .done r s) : LeftBy S s.heap

theorem plain_of_leftBy {h : Heap} (hleft : LeftBy (·.disciplined = true) h) :
    h.Holds Value.Plain := by
  induction hleft with
  | start => exact .start
  | @run h p bound events r s _ hp hrun ih =>
      obtain ⟨hkeeps, -⟩ :=
        Contract.respects_evalWatched allows_hiddenReturns bound _ hp globalScope ⟨h, events⟩ ih
      exact (hkeeps r s hrun).1

/-- Disciplined programs never bind, use, wrap or end with a return. -/
theorem eval_hides_returns {h : Heap} (hleft : LeftBy (·.disciplined = true) h) {p : Program}
    (hp : p.disciplined = true) (bound : Nat) (events : List Event) :
    h.Holds (¬·.IsReturn) ∧
    evalWatched hiddenReturns bound globalScope (.program p) ⟨h, events⟩ =
      eval bound globalScope (.program p) ⟨h, events⟩ ∧
    ∀ r s, eval bound globalScope (.program p) ⟨h, events⟩ = .done r s →
      s.heap.Holds (¬·.IsReturn) ∧ ∀ v ∈ r, ¬v.IsReturn := by
  have hplain := plain_of_leftBy hleft
  obtain ⟨hkeeps, hsame⟩ :=
    Contract.respects_evalWatched allows_hiddenReturns bound _ hp globalScope ⟨h, events⟩ hplain
  refine ⟨hplain.mono fun _ => Value.Plain.not_isReturn, hsame fun _ _ _ _ _ => trivial,
    fun r s hrun => ?_⟩
  obtain ⟨hs, hr⟩ := hkeeps r s hrun
  refine ⟨hs.mono fun _ => Value.Plain.not_isReturn, fun v hv => ?_⟩
  rcases hr v hv with ⟨fault, rfl⟩ | hv | ⟨_, _, _, hmay⟩
  · exact nofun
  · exact hv.not_isReturn
  · cases hmay

/-- A function with returns in nested conditions, and a program that calls it and returns. -/
theorem eval_hides_returns_nested :
    let p := (Grammar.parseSource (utf8 ("let f = fn(x) \x7b if (x > 1) \x7b if (x > 2) " ++
      "\x7b return x; \x7d else \x7b return 0; \x7d \x7d; x + 5 \x7d;")) false).program
    let q := (Grammar.parseSource (utf8
      "let y = f(3); if (y == 3) \x7b return f(2) + f(1); \x7d; 9") false).program
    p.disciplined = true ∧ q.disciplined = true ∧
    ∃ r s r' s', eval 30 globalScope (.program p) ⟨Heap.empty.alloc none, []⟩ = .done r s ∧
      eval 30 globalScope (.program q) s = .done r' s' ∧ s.heap.Holds (¬·.IsReturn) ∧
      evalWatched hiddenReturns 30 globalScope (.program q) s = .done r' s' ∧
      s'.heap.Holds (¬·.IsReturn) ∧ ∀ v ∈ r', ¬v.IsReturn := by
  intro p q
  have hp : p.disciplined = true := by decide +kernel
  have hq : q.disciplined = true := by decide +kernel
  have hdone : ((eval 30 globalScope (.program p) >>= fun _ => eval 30 globalScope (.program q))
      ⟨Heap.empty.alloc none, []⟩).isDone = true := by decide +kernel
  clear_value p q
  obtain ⟨r', s', hboth⟩ := Outcome.exists_of_isDone hdone
  obtain ⟨r, s, hrun, hrun'⟩ := Action.bind_eq_done.mp hboth
  obtain ⟨hbefore, hwatched, hafter⟩ := eval_hides_returns (.run .start hp hrun) hq 30 s.events
  obtain ⟨hheap, hresult⟩ := hafter r' s' hrun'
  exact ⟨hp, hq, r, s, r', s', hrun, hrun', hbefore, hwatched.trans hrun', hheap, hresult⟩

example :
    let p := (Grammar.parseSource (utf8 "let y = if (true) \x7b return 1; \x7d;") false).program
    p.disciplined = false := by decide +kernel

end Evaluation

end Monkey
