import Monkey.Proofs.Evaluation.Places
import Monkey.Proofs.Grammar.Parallel
import Monkey.Proofs.Token.Layout

/-!
# Layout makes no difference

Two sources that have the same tokens, and so differ in their blanks only, are read with the same
faults and as the same program but for places, whatever the faults are. Such programs are evaluated
alike. What they leave bound may be functions with bodies that differ in places, and so the heaps in
which two programs are evaluated are not asked to be equal, but to be the same but for places, as
they are again afterwards.
-/

namespace Monkey.Evaluation

open Grammar

variable {a b : Bytes}

/-- Sources with the same tokens are read alike. -/
theorem parseSource_sameTokens (h : Token.SameTokens a b) (tracing : Bool) :
    (parseSource a tracing).program.relabel Token.unplaced Token.unplaced =
        (parseSource b tracing).program.relabel Token.unplaced Token.unplaced ∧
      (parseSource a tracing).faults = (parseSource b tracing).faults :=
  @parse_parallel (fun _ => .start) (fun _ => .start) (.ofSource a) (.ofSource b) h.items_unplaced
    tracing tracing

theorem unplaced_eq_of_relabel {p q : Program}
    (h : p.relabel Token.unplaced Token.unplaced = q.relabel Token.unplaced Token.unplaced) :
    p.unplaced = q.unplaced := by
  rw [← p.unplaced_relabel fun _ => .start, ← q.unplaced_relabel fun _ => .start]
  exact congrArg Program.unplaced h

theorem eval_sameUnplaced {p q : Program} (hpq : p.unplaced = q.unplaced) {heap heap' : Heap}
    (hreach : heap.Reachable) (hreach' : heap'.Reachable) (hheaps : heap.unplaced = heap'.unplaced)
    {scope : ScopeId} (hscope : scope < heap.size) (bound : Nat) (events events' : List Event) :
    (eval bound scope (.program p) ⟨heap, events⟩).Agree SameUnplaced
      (eval bound scope (.program q) ⟨heap', events'⟩) := by
  cases bound with
  | zero => exact .exhausted
  | succ bound =>
      exact evalProgram_sameUnplaced hpq hreach hreach' hheaps hscope bound
        (.visit (some .program) :: events) (.visit (some .program) :: events')

/-- Layout does not matter. Sources whose tokens have the same kinds and texts differ in blanks
only. They are read with the same faults and as programs that are the same but for places, and these
have the same text. In environments that are the same but for places, both are evaluated to an end
or neither is, and then the results and all bindings look the same and are the same but for
places. -/
theorem layout_immaterial (h : Token.SameTokens a b) (tracing : Bool) :
    let p := parseSource a tracing
    let q := parseSource b tracing
    Token.visible a = Token.visible b ∧
      p.faults = q.faults ∧
      p.program.relabel Token.unplaced Token.unplaced =
        q.program.relabel Token.unplaced Token.unplaced ∧
      p.program.render = q.program.render ∧
      ∀ {heap heap' : Heap} {scope : ScopeId}, heap.Reachable → heap'.Reachable →
        heap.unplaced = heap'.unplaced → scope < heap.size →
        ∀ (bound : Nat) (events events' : List Event),
          (eval bound scope (.program p.program) ⟨heap, events⟩).Agree
            (fun r s r' s' => LookAlike r s r' s' ∧ SameUnplaced r s r' s')
            (eval bound scope (.program q.program) ⟨heap', events'⟩) := by
  intro p q
  obtain ⟨hprogram, hfaults⟩ := parseSource_sameTokens h tracing
  have hunplaced : p.program.unplaced = q.program.unplaced := unplaced_eq_of_relabel hprogram
  refine ⟨h.visible_eq, hfaults, hprogram, ?_, ?_⟩
  · rw [← p.program.render_unplaced, hunplaced, q.program.render_unplaced]
  · intro heap heap' scope hreach hreach' hheaps hscope bound events events'
    have hagree := eval_sameUnplaced hunplaced hreach hreach' hheaps hscope bound events events'
    exact hagree.mono fun _ _ _ _ hsame => ⟨hsame.lookAlike, hsame⟩

/-- A function that is bound and called, with a statement that cannot be read, on one line and on
several. -/
theorem layout_immaterial_function :
    let a := utf8 "let f=fn(x,y)\x7blet 5;x+y\x7d;let z=f(2,3);f"
    let b := utf8 "let f = fn(x, y) \x7b\n\tlet 5;\n\tx + y\n\x7d;\r\nlet z = f(2, 3);\nf\n"
    let p := parseSource a false
    let q := parseSource b false
    let s : State := ⟨Heap.empty.alloc none, []⟩
    a ≠ b ∧ Token.SameTokens a b ∧ Token.visible a = Token.visible b ∧
      p.faults.length = 1 ∧ p.faults = q.faults ∧ p.program.render = q.program.render ∧
      ∃ r s₁ r' s₁', eval 30 globalScope (.program p.program) s = .done r s₁ ∧
        eval 30 globalScope (.program q.program) s = .done r' s₁' ∧
        LookAlike r s₁ r' s₁' ∧ SameUnplaced r s₁ r' s₁' := by
  intro a b p q s
  have hne : a ≠ b := by decide
  have hsame : Token.SameTokens a b := by decide +kernel
  have hlength : p.faults.length = 1 := by decide +kernel
  have hreach : s.heap.Reachable := .alloc .empty (by simp)
  have hscope : globalScope < s.heap.size := by decide
  have hdone : (eval 30 globalScope (.program p.program) s).isDone = true := by decide +kernel
  clear_value a b s
  obtain ⟨hvisible, hfaults, -, hrender, heval⟩ := layout_immaterial hsame false
  have hagree := heval hreach hreach rfl hscope 30 s.events s.events
  obtain ⟨r, s₁, hrun⟩ := Outcome.exists_of_isDone hdone
  rw [hrun] at hagree
  obtain ⟨r', s₁', hrun', halike, hunplaced⟩ := hagree.exists_of_done
  exact ⟨hne, hsame, hvisible, hlength, hfaults, hrender, r, s₁, r', s₁', hrun, hrun', halike,
    hunplaced⟩

end Monkey.Evaluation
