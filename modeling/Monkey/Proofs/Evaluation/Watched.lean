import Monkey.Proofs.Evaluation.Contract

/-!
# Evaluation that is watched

What happens on the way does not show in the result of an evaluation. `evalWatched w` evaluates as
`eval` does and puts two questions to `w`: when a node has evaluated a part of it, or the body of
a function that it calls, whether the result and the state are all right, and when a value is
applied to arguments, whether these are. Once the answer is no, it gets stuck. That it ends as
`eval` does is thus a statement about every evaluation that is performed and every call that is
made on the way.

For a watch that asks for nothing but what a contract says, it is enough to know that the nodes and
the heap at the beginning keep the contract.
-/

namespace Monkey.Evaluation

open Value (Fault)
open Monkey.Evaluation.Action

structure Watch where
  /-- Asked when the first node has evaluated the second one. -/
  part : Node → Node → Option Value → State → Prop
  /-- Asked when the value is about to be applied to the arguments. -/
  call : Value → List Value → State → Prop

open Classical in
/-- Gets stuck if the state is not as it should be. -/
noncomputable def demand (ok : State → Prop) : Action Unit := do
  if ← observe fun s => decide (ok s) then pure () else stuck

namespace Watch

variable (w : Watch)

/-- The evaluator for the parts of `n`, with the question put after each of them. -/
noncomputable def seen (n : Node) (sub : Evaluator) : Evaluator := fun scope m => do
  let r ← sub scope m
  demand (w.part n m r)
  pure r

noncomputable def apply (sub : Evaluator) (callee : Value) (args : List Value) :
    Action (Option Value) := do
  demand (w.call callee args)
  Evaluation.apply sub callee args

end Watch

/-- One node, watched by `w`. -/
noncomputable def stepWatched (w : Watch) (sub : Evaluator) : Evaluator := fun scope n =>
  match n with
  | .expr (.call token callee args) => do
    let seen := w.seen (.expr (.call token callee args)) sub
    note (.visit (some .call))
    operand (seen scope (.expr callee)) fun f => do
      match ← arguments (fun e => seen scope (.expr e)) args [] with
      | .inl fault => pure (some (.error fault))
      | .inr values => w.apply seen f values
  | n => step (w.seen n sub) scope n

noncomputable def evalWatched (w : Watch) : Nat → Evaluator
  | 0 => fun _ _ => exhausted
  | bound + 1 => stepWatched w (evalWatched w bound)

namespace Contract

variable {c : Contract} {final : Fault → State → Prop} {w : Watch} {sub sub' : Evaluator}

/-- The node evaluates `m` as one of its parts, or as the body of a function. -/
def Evaluates (n m : Node) : Prop := m ∈ n.operands ∨ ∃ body, m = .stmt (.block body)

/-- The watch asks for nothing that the contract does not say. -/
structure Allows (c : Contract) (final : Fault → State → Prop) (w : Watch) : Prop where
  part : ∀ {n m r s}, c.node n → Evaluates n m → c.gives m r → s.heap.Holds c.held →
    Passes final r s → w.part n m r s
  call : ∀ {callee args s}, c.held callee → (∀ v ∈ args, c.held v) → s.heap.Holds c.held →
    w.call callee args s

open Classical in
theorem demand_of {ok : State → Prop} {s : State} (h : ok s) : demand ok s = .done () s := by
  have hholds : (observe fun s => decide (ok s)) s = .done true s := by
    rw [run, decide_eq_true h]
  exact bind_done hholds

theorem shadows_seen (hw : c.Allows final w) {n m : Node} (hn : c.node n) (hm : Evaluates n m)
    (h : c.ShadowsAt final sub sub' m) : c.ShadowsAt final sub (w.seen n sub') m := by
  intro scope s hs
  obtain ⟨hkeeps, hsame⟩ := h scope s hs
  refine ⟨hkeeps, fun hends => ?_⟩
  have hsub := hsame hends
  cases hrun : sub scope m s with
  | done r s' =>
      obtain ⟨hs', hr⟩ := hkeeps r s' hrun
      have hok : w.part n m r s' := hw.part hn hm hr hs' (hends r s' hrun)
      exact (bind_done (hsub.trans hrun)).trans (bind_done (demand_of hok))
  | stuck => exact bind_stuck (hsub.trans hrun)
  | exhausted => exact bind_exhausted (hsub.trans hrun)

theorem shadows_applyWatched (hw : c.Allows final w) (hbodies : c.ShadowsBodies final sub sub')
    {callee : Value} {args : List Value} (hcallee : c.held callee) (hargs : ∀ v ∈ args, c.held v) :
    c.Shadows (Passes final) (apply sub callee args) (w.apply sub' callee args)
      fun r => ∀ v ∈ r, c.Usable v := by
  intro s hs
  obtain ⟨hkeeps, hsame⟩ := shadows_apply hbodies hcallee hargs s hs
  refine ⟨hkeeps, fun hends => ?_⟩
  exact (bind_done (demand_of (hw.call hcallee hargs hs))).trans (hsame hends)

/-- Watching an evaluation changes nothing if the watch asks only for what the contract says. -/
theorem respects_evalWatched (hw : c.Allows final w) (bound : Nat) :
    c.Respects final (eval bound) (evalWatched w bound) := by
  induction bound with
  | zero => exact respects_exhausted
  | succ bound ih =>
      intro n hn
      have hparts : ∀ m ∈ n.operands,
          c.ShadowsAt final (eval bound) (w.seen n (evalWatched w bound)) m :=
        fun m hm => shadows_seen hw hn (.inl hm) (ih.parts hn m hm)
      have hbodies : c.ShadowsBodies final (eval bound) (w.seen n (evalWatched w bound)) :=
        fun body hbody => shadows_seen hw hn (.inr ⟨body, rfl⟩) (ih _ hbody)
      have hstep := shadows_step hn hparts hbodies
      cases n with
      | program p => exact hstep
      | stmt stmt => exact hstep
      | expr e =>
          cases e with
          | call token callee args =>
              intro scope
              refine shadows_bind_free (shadows_note _) fun _ _ => ?_
              exact shadows_call hn hparts fun f values hf hvalues =>
                shadows_applyWatched hw hbodies hf hvalues
          | _ => exact hstep

end Contract

end Monkey.Evaluation
