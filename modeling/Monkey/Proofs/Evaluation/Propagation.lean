import Monkey.Interpreter.Basic
import Monkey.Proofs.Evaluation.Watched

/-!
# Errors are handed on and never kept

From a heap in which nothing is bound to an error, no evaluation binds a name to an error, puts
one into a return or hands one to a function, whatever the node is. As soon as any evaluation ends
with an error, the whole evaluation around it ends with the same error, and it ends there: the
state that the error came up in is the state at the end, so that no node is visited and no name is
bound after it.
-/

namespace Monkey

/-- The value is no error, and no error stands in the returns that it may be. -/
def Value.ErrorFree : Value → Prop
  | .ret inner => inner.ErrorFree
  | .error _ => False
  | _ => True

namespace Evaluation

/-- Errors are never held, and no return that comes of a node holds one. -/
def sparingErrors : Contract where
  held := Value.ErrorFree
  node _ := True
  gives _ r := ∀ v ∈ r, (∃ fault, v = .error fault) ∨ v.ErrorFree
  operands _ _ := trivial
  made _ _ := trivial
  body _ := trivial
  int _ := trivial
  ofBool _ := trivial
  null := trivial
  void _ := by simp
  error _ fault := by simp
  expr _ hv := by simpa using .inr hv
  returned _ hv := by
    rintro _ ⟨⟩
    exact .inr hv
  used _ _ _ hv := hv _ rfl
  handedOn := by
    intro n m r _ _ _ hr
    cases r with
    | none => cases n <;> simp [Node.conclude, programResult, blockValue, Value.ErrorFree]
    | some v =>
        have hv := hr v rfl
        cases n with
        | program p => cases v <;> simp_all [Node.conclude, programResult, Value.ErrorFree]
        | _ => simpa [Node.conclude, blockValue] using hv
  called := by
    intro body r _ hr
    cases r with
    | none => exact .inr trivial
    | some v =>
        have hv := hr v rfl
        cases v <;> simp_all [callResult, Value.ErrorFree]

/-- Asks that no error is bound, returned or passed, and that an error is `last`, the result of the
whole evaluation, and leaves the state in which that ends. -/
def propagation (last : Option Value) (final : State) : Watch where
  part _ _ r s := s.heap.Holds Value.ErrorFree ∧
    (∀ inner, r = some (.ret inner) → inner.ErrorFree) ∧
    ∀ fault, r = some (.error fault) → last = r ∧ final = s
  call callee args s := s.heap.Holds Value.ErrorFree ∧ callee.ErrorFree ∧ ∀ v ∈ args, v.ErrorFree

theorem errorFree_of_ret {n : Node} {r : Option Value} (h : sparingErrors.gives n r) {inner : Value}
    (hr : r = some (.ret inner)) : inner.ErrorFree := by
  rcases h (.ret inner) hr with ⟨fault, heq⟩ | hfree
  · cases heq
  · exact hfree

theorem allows_propagation (last : Option Value) (final : State) :
    sparingErrors.Allows (fun fault s => last = some (.error fault) ∧ final = s)
      (propagation last final) where
  part := by
    intro n m r s _ _ hr hs hpasses
    refine ⟨hs, fun inner => errorFree_of_ret hr, ?_⟩
    rintro fault rfl
    exact hpasses fault rfl
  call hcallee hargs hs := ⟨hs, hcallee, hargs⟩

/-- Where no error is held, none ever is, and the first error ends the whole evaluation. -/
theorem eval_propagates {bound : Nat} {scope : ScopeId} {n : Node} {s s' : State}
    {r : Option Value} (hfree : s.heap.Holds Value.ErrorFree)
    (hrun : eval bound scope n s = .done r s') :
    s'.heap.Holds Value.ErrorFree ∧ (∀ inner, r = some (.ret inner) → inner.ErrorFree) ∧
      evalWatched (propagation r s') bound scope n s = .done r s' := by
  obtain ⟨hkeeps, hsame⟩ :=
    Contract.respects_evalWatched (allows_propagation r s') bound n trivial scope s hfree
  obtain ⟨hfree', hr⟩ := hkeeps r s' hrun
  refine ⟨hfree', fun inner => errorFree_of_ret hr, ?_⟩
  rw [← hrun]
  refine hsame fun r₁ s₁ hrun₁ => ?_
  rw [hrun] at hrun₁
  cases hrun₁
  rintro fault rfl
  exact ⟨rfl, rfl⟩

/-- The error with which an evaluation ends. -/
def Outcome.fault? : Outcome (Option Value) → Option Value.Fault
  | .done (some (.error fault)) _ => some fault
  | _ => none

/-- A division by zero in a function that is called for an argument, inside a block. -/
theorem eval_propagates_division :
    let p := (Grammar.parseSource (utf8 ("let f = fn(x) \x7b let y = x / 0; return y; \x7d; " ++
      "let g = fn(a, b) \x7b a \x7d; if (true) \x7b let z = g(1, f(7) + h); z \x7d; let k = 2;"))
      false).program
    let s : State := ⟨Heap.empty.alloc none, []⟩
    ∃ s', eval 30 globalScope (.program p) s = .done (some (.error (.divisionByZero 7))) s' ∧
      s.heap.Holds Value.ErrorFree ∧ s'.heap.Holds Value.ErrorFree ∧
      evalWatched (propagation (some (.error (.divisionByZero 7))) s') 30 globalScope (.program p)
        s = .done (some (.error (.divisionByZero 7))) s' := by
  intro p s
  have hfault : (eval 30 globalScope (.program p) s).fault? = some (.divisionByZero 7) := by
    decide +kernel
  have hfree : s.heap.Holds Value.ErrorFree := .start
  generalize hrun : eval 30 globalScope (.program p) s = o at hfault
  unfold Outcome.fault? at hfault
  split at hfault
  · next fault s' =>
      cases hfault
      obtain ⟨hfree', -, hwatched⟩ := eval_propagates hfree hrun
      exact ⟨s', rfl, hfree, hfree', hwatched⟩
  · cases hfault

end Evaluation

end Monkey
