import Monkey.Proofs.Grammar.Halting

/-!
# How far reading can go

Reading a stream ends at an end token, whatever the tokens are and however many statements fail.
Every round of a loop takes up a token, also a round that fails, and the rules that are inside each
other are no more than a linear function of the number of tokens. The reason for the latter is that
from one expression to the next one inside it at least one token is taken up, and at most four
other rules are between the two: a condition, its block, a statement and the rule for its kind.
-/

namespace Monkey.Grammar

open Rule

/-- A round of operators calls no rule but from one token further on. -/
theorem operatorRound_progress {s : State} {level : Level}
    (hlevel : level < Level.ofKind s.input.peek.kind) (bound : Nat) (left : Expr) :
    TakesToken (operatorRound (expression bound) bound level left) s (bound < s.size) := by
  have hsize : 1 < s.size := State.one_lt_size fun heof => by
    rw [State.peek_kind, heof] at hlevel
    exact Nat.not_lt_zero _ hlevel
  have hround := within_operatorRound (within_expression (s.size - 1) bound)
    (Nat.lt_or_ge (s.size - 1) bound).symm level left
  refine (operatorRound_takesToken hlevel _ bound left).cutOff (hround.mono ?_ (Nat.le_refl _) ?_)
  · omega
  · omega

theorem argRound_progress {s : State} (hcomma : s.input.peek.kind = .comma) (bound : Nat)
    (done : List Expr) : TakesToken (argRound (expression bound) done) s (bound < s.size) := by
  have hsize : 1 < s.size := State.one_lt_size (by simp [← State.peek_kind, hcomma])
  have hround := within_argRound (within_expression (s.size - 1) bound) done
  refine (argRound_takesToken hcomma _ done).cutOff (hround.mono ?_ (Nat.le_refl _) ?_)
  · omega
  · omega

/-- Reading comes to an end. With any bound above the number of tokens nothing is cut off and the
stream is read up to an end token. From whatever state it starts, each round of a list of
statements, of the operators of an expression, of parameters and of arguments takes up a token, and
is cut off only where its bound is not above the number of tokens left. The rules that are inside
each other are linear in the number of tokens. -/
theorem program_progress (input : Token.Stream) (tracing : Bool) :
    (∀ bound, input.items.length < bound → ∃ p s,
        program bound (.ofStream tracing input) = .found p s ∧ s.input.current.kind = .eof) ∧
      (∀ (s : State) (bound : Nat),
        (∀ stop : Token.Kind → Bool, stop .eof = true → stop s.input.current.kind = false →
          ∀ done, TakesToken (statementRound (expression bound) stop done) s (bound ≤ s.size)) ∧
        (∀ level, level < Level.ofKind s.input.peek.kind → ∀ left,
          TakesToken (operatorRound (expression bound) bound level left) s (bound < s.size)) ∧
        (s.input.peek.kind = .comma → ∀ done, TakesToken (paramRound done) s False) ∧
        (s.input.peek.kind = .comma → ∀ done,
          TakesToken (argRound (expression bound) done) s (bound < s.size))) ∧
      ∀ bound, (program bound).nesting (.ofStream tracing input) ≤ 5 * input.items.length + 4 := by
  refine ⟨fun bound hbound => program_reaches_end hbound tracing, fun s bound => ?_,
    fun bound => (within_program _ bound _ (Nat.le_refl _)).1⟩
  have hstatement (stop : Token.Kind → Bool) (done : List Stmt) :=
    within_statementRound (within_expression s.size bound) stop done
  exact ⟨fun stop hstop hgo done =>
      (statementRound_takesToken hstop hgo _ done).cutOff (hstatement stop done),
    fun level hlevel => operatorRound_progress hlevel bound,
    fun hcomma => paramRound_takesToken hcomma, fun hcomma => argRound_progress hcomma bound⟩

end Monkey.Grammar
