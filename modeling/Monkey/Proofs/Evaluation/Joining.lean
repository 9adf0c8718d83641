import Monkey.Interpreter.Basic
import Monkey.Proofs.Evaluation.Places
import Monkey.Proofs.Grammar.Joining

/-!
# Evaluating two sources as one

Statements are evaluated one after the other, and a program makes nothing of them but to end with
the first one that returns or fails. So if none of the statements of a first source does, it makes
no difference to the bindings whether a second source is put after it or evaluated after it.
Together with what is known of reading two sources as one, a file does the same as its parts one
by one.
-/

namespace Monkey.Evaluation

open Grammar
open Monkey.Evaluation.Action

/-- Whether none of the statements ends the list when they are evaluated one after the other. If one
of them is cut off, there is nothing to be said of those after it. -/
def runsThrough (sub : Stmt → Action (Option Value)) : List Stmt → State → Bool
  | [], _ => true
  | stmt :: rest, s =>
    match sub stmt s with
    | .done r s' => !endsList r && runsThrough sub rest s'
    | _ => true

theorem sequence_append {sub : Stmt → Action (Option Value)} {ss : List Stmt} (ss' : List Stmt)
    (last : Option Value) {s : State} (h : runsThrough sub ss s = true) :
    sequence sub (ss ++ ss') last s = (sequence sub ss last >>= sequence sub ss') s := by
  induction ss generalizing last s with
  | nil => rfl
  | cons stmt ss ih =>
      unfold runsThrough at h
      change (sub stmt >>= _) s = ((sub stmt >>= _) >>= _) s
      rw [bind_assoc]
      cases hstmt : sub stmt s with
      | done r s' =>
          simp only [hstmt, Bool.and_eq_true, Bool.not_eq_true'] at h
          rw [bind_done hstmt, bind_done hstmt]
          simp only [h.1]
          exact ih r h.2
      | stuck => rw [bind_stuck hstmt, bind_stuck hstmt]
      | exhausted => rw [bind_exhausted hstmt, bind_exhausted hstmt]

/-- The bindings look the same, and so do the results, unless the program has no statements. -/
def EndsLike (p : Program) (r : Option Value) (s : State) (r' : Option Value) (s' : State) : Prop :=
  (p.stmts ≠ [] → r.map Value.shown = r'.map Value.shown) ∧ SameBindings s s'

/-- The statements of a program, but for places, after others of which `last` is the result. -/
theorem sequence_endsLike {q : Program} {ss : List Stmt} (hss : Program.unplaced ⟨ss⟩ = q.unplaced)
    {s : State} (hreach : s.heap.Reachable) {scope : ScopeId} (hscope : scope < s.heap.size)
    (bound : Nat) (last : Option Value) :
    ((do
        let r ← sequence (fun stmt => eval bound scope (.stmt stmt)) ss last
        pure (programResult r)) s).Agree (EndsLike q) (eval (bound + 1) scope (.program q) s) := by
  cases ss with
  | nil =>
      have hnone : q.stmts = [] := by
        cases hq : q.stmts with
        | nil => rfl
        | cons stmt rest => simp [Program.unplaced, Program.relabel, hq, Stmt.relabelEach] at hss
      obtain ⟨stmts⟩ := q
      obtain rfl : stmts = [] := hnone
      exact .done ⟨fun hne => absurd rfl hne, fun _ => rfl⟩
  | cons stmt rest =>
      have halike := evalProgram_lookAlike hss hreach hscope bound s.events
        (.visit (some .program) :: s.events)
      exact halike.mono fun _ _ _ _ h => ⟨fun _ => h.1, h.2⟩

/-- A program whose statements are those of `p` and, but for places, those of `q` does what `p` does
and then `q`. -/
theorem eval_append {p q joined : Program} {ss : List Stmt} (hstmts : joined.stmts = p.stmts ++ ss)
    (hss : Program.unplaced ⟨ss⟩ = q.unplaced) {h : Heap} (hreach : h.Reachable) {scope : ScopeId}
    (hscope : scope < h.size) {bound : Nat} {events : List Event}
    (hruns : runsThrough (fun stmt => eval bound scope (.stmt stmt)) p.stmts
      ⟨h, .visit (some .program) :: events⟩ = true) :
    (eval (bound + 1) scope (.program joined) ⟨h, events⟩).Agree (EndsLike q)
      ((do
        let _ ← eval (bound + 1) scope (.program p)
        eval (bound + 1) scope (.program q)) ⟨h, events⟩) := by
  let sub := fun stmt => eval bound scope (.stmt stmt)
  let s₀ : State := ⟨h, .visit (some .program) :: events⟩
  have hleft : eval (bound + 1) scope (.program joined) ⟨h, events⟩ =
      ((sequence sub p.stmts none >>= sequence sub ss) >>= fun r => pure (programResult r)) s₀ := by
    change (sequence sub joined.stmts none >>= _) s₀ = _
    rw [hstmts]
    exact bind_congr (sequence_append ss none hruns)
  have hright : eval (bound + 1) scope (.program p) ⟨h, events⟩ =
      evalProgram (eval bound) scope p s₀ := rfl
  rw [hleft, bind_assoc]
  cases hseq : sequence sub p.stmts none s₀ with
  | done last s₁ =>
      have hfirst := hright.trans (bind_done hseq)
      rw [bind_done hseq, bind_done hfirst]
      obtain ⟨hreach₁, -⟩ := reachable_of_eval hreach hscope hfirst
      have hscope₁ := Nat.lt_of_lt_of_le hscope (changesOnly_of_eval hfirst).size
      exact sequence_endsLike hss hreach₁ hscope₁ bound last
  | stuck =>
      have hends := evalProgram_lookAlike (p := p) rfl hreach hscope bound s₀.events s₀.events
      have hstuck : evalProgram (eval bound) scope p s₀ = .stuck := bind_stuck hseq
      rw [hstuck] at hends
      cases hends
  | exhausted =>
      rw [bind_exhausted hseq, bind_exhausted (hright.trans (bind_exhausted hseq))]
      exact .exhausted

/-- Two sources with a line feed between them: they are read as the statements of the first one
and, further down, those of the second one, with the faults of the second one, and they are
evaluated like the first one and then the second one, if no statement of the first one returns or
fails. -/
theorem eval_append_lineFeed {a b : Bytes} {tracing : Bool}
    (hfaults : (parseSource a tracing).faults = []) (hdepth : Session.openDepth a = 0)
    (hsep : Separate (Token.Stream.ofSource a).items (Token.Stream.ofSource b).items) :
    let p := (parseSource a tracing).program
    let q := (parseSource b tracing).program
    let joined := parseSource (a ++ 0x0a :: b) tracing
    joined.program.stmts =
        p.stmts ++ q.stmts.map (Stmt.moved (Position.down (a.count 0x0a + 1))) ∧
      joined.faults = (parseSource b tracing).faults ∧
      ∀ {h : Heap} {scope : ScopeId} {bound : Nat} {events : List Event}, h.Reachable →
        scope < h.size →
        runsThrough (fun stmt => eval bound scope (.stmt stmt)) p.stmts
          ⟨h, .visit (some .program) :: events⟩ = true →
        (eval (bound + 1) scope (.program joined.program) ⟨h, events⟩).Agree (EndsLike q)
          ((do
            let _ ← eval (bound + 1) scope (.program p)
            eval (bound + 1) scope (.program q)) ⟨h, events⟩) := by
  intro p q joined
  obtain ⟨hstmts, hsame⟩ := parseSource_append hfaults hdepth hsep
  refine ⟨hstmts, hsame, fun hreach hscope hruns => eval_append hstmts ?_ hreach hscope hruns⟩
  rw [← Stmt.relabelEach_eq_map]
  exact Program.unplaced_relabel _ q

/-- A function bound in the first of two sources and used by a function of the second one. -/
theorem eval_append_lineFeed_functions :
    let a := utf8 "let f = fn(x) \x7b\n x + 1 \x7d;\nlet y = 2"
    let b := utf8 "let g = fn(z) \x7b f(z) * y \x7d\ng(3)"
    let p := (parseSource a false).program
    let q := (parseSource b false).program
    let joined := parseSource (a ++ 0x0a :: b) false
    let s : State := ⟨Heap.empty.alloc none, []⟩
    joined.program.stmts =
        p.stmts ++ q.stmts.map (Stmt.moved (Position.down (a.count 0x0a + 1))) ∧
      joined.faults = [] ∧
      ∃ r s₁ r' s₁', eval 30 globalScope (.program joined.program) s = .done r s₁ ∧
        (do
          let _ ← eval 30 globalScope (.program p)
          eval 30 globalScope (.program q)) s = .done r' s₁' ∧
        r.map Value.shown = r'.map Value.shown ∧ SameBindings s₁ s₁' := by
  intro a b p q joined s
  have hfaults : (parseSource a false).faults = [] := by decide +kernel
  have hdepth : Session.openDepth a = 0 := by decide +kernel
  have hsep : Separate (Token.Stream.ofSource a).items (Token.Stream.ofSource b).items :=
    .inr (.inr (by decide +kernel))
  have hfaults' : (parseSource b false).faults = [] := by decide +kernel
  have hsome : q.stmts ≠ [] := by decide +kernel
  have hreach : s.heap.Reachable := .alloc .empty (by simp)
  have hscope : globalScope < s.heap.size := by decide
  have hruns : runsThrough (fun stmt => eval 29 globalScope (.stmt stmt)) p.stmts
      ⟨s.heap, .visit (some .program) :: s.events⟩ = true := by decide +kernel
  have hdone : (eval 30 globalScope (.program joined.program) s).isDone = true := by decide +kernel
  clear_value a b s
  obtain ⟨hstmts, hsame, heval⟩ := eval_append_lineFeed hfaults hdepth hsep
  have hagree : (eval 30 globalScope (.program joined.program) s).Agree (EndsLike q) _ :=
    heval hreach hscope hruns
  obtain ⟨r, s₁, hrun⟩ := Outcome.exists_of_isDone hdone
  rw [hrun] at hagree
  obtain ⟨r', s₁', hrun', hresult, hbindings⟩ := hagree.exists_of_done
  exact ⟨hstmts, hsame.trans hfaults', r, s₁, r', s₁', hrun, hrun', hresult hsome, hbindings⟩

end Monkey.Evaluation
