import Monkey.Proofs.Grammar.Outcome

/-!
# Reading comes to an end

No rule is cut off when its bound is above the number of tokens that are left, and the calls of
rules that are inside each other are at most linear in that number. The reason is the same for
both: no rule ever goes back in the stream, every nested expression starts at least one token
further on, and every round of a loop that is not the last one takes up a token.

`Within n m X r` is the statement that is taken through the rules: from a state with at most `n`
tokens the rule has at most `m` calls inside each other, and it is cut off under the condition `X`
only. Everything that is not a loop or the start of an operand follows by composition.
-/

namespace Monkey.Grammar

open Rule Outcome

namespace State

/-- How many tokens are left, the current one included. -/
def size (s : State) : Nat := s.tokens.length

@[simp] theorem size_advance (s : State) : s.advance.size = s.size - 1 := by
  simp [size, ahead]

@[simp] theorem size_enter (rule : RuleName) (s : State) : (s.enter rule).size = s.size := by
  simp [size]

@[simp] theorem size_report (f : Fault) (s : State) : (s.report f).size = s.size := rfl

theorem size_pos {s : State} (h : leadKind s.tokens ≠ .eof) : 0 < s.size := by
  cases ht : s.tokens with
  | nil => simp [ht] at h
  | cons t ts => simp [size, ht]

theorem one_lt_size {s : State} (h : leadKind s.ahead ≠ .eof) : 1 < s.size := by
  have hpos := size_pos (s := s.advance) (by simpa using h)
  rw [size_advance] at hpos
  omega

end State

namespace Rule

/-- How many calls of rules are inside each other on the way, at most. -/
def nesting : {α : Type} → Rule α → State → Nat
  | _, .bind r f, s =>
    Nat.max (r.nesting s) (match r s with
      | .found a s' => (f a).nesting s'
      | _ => 0)
  | _, attempt r, s => r.nesting s
  | _, traced name r, s => r.nesting (s.enter name) + 1
  | _, silent r, s => r.nesting s + 1
  | _, _, _ => 0

/-- No rule leaves more tokens than there were. -/
theorem size_le {α : Type} (r : Rule α) (s : State) :
    (r s).Satisfies (fun _ s' => s'.size ≤ s.size) (fun s' => s'.size ≤ s.size) True :=
  (steady_tokens.run r s).mono (fun _ _ h => h.length_le) (fun _ h => h.length_le) id

end Rule

/-- From at most `n` tokens the rule has at most `m` calls inside each other, and is cut off under
the condition `X` only. -/
def Within {α : Type} (n m : Nat) (X : Prop) (r : Rule α) : Prop :=
  ∀ s : State, s.size ≤ n →
    r.nesting s ≤ m ∧ (r s).Satisfies (fun _ _ => True) (fun _ => True) X

section Combinators

variable {α β : Type} {n m : Nat} {X : Prop}

theorem Within.mono {n' m' : Nat} {X' : Prop} {r : Rule α} (h : Within n m X r) (hn : n' ≤ n)
    (hm : m ≤ m') (hX : X → X') : Within n' m' X' r := by
  intro s hs
  obtain ⟨hnesting, hends⟩ := h s (Nat.le_trans hs hn)
  exact ⟨Nat.le_trans hnesting hm, hends.mono (fun _ _ h => h) (fun _ h => h) hX⟩

/-- The same with more calls inside each other. -/
theorem Within.add {r : Rule α} (h : Within n m X r) (k : Nat) : Within n (m + k) X r :=
  h.mono (Nat.le_refl n) (Nat.le_add_right m k) id

theorem within_pure (a : α) : Within n m X (pure a) := fun _ _ => ⟨Nat.zero_le _, trivial⟩

theorem within_current : Within n m X current := fun _ _ => ⟨Nat.zero_le _, trivial⟩

theorem within_peek : Within n m X peek := fun _ _ => ⟨Nat.zero_le _, trivial⟩

theorem within_advance : Within n m X advance := fun _ _ => ⟨Nat.zero_le _, trivial⟩

theorem within_fail (f : Fault) : Within n m X (fail f : Rule α) :=
  fun _ _ => ⟨Nat.zero_le _, trivial⟩

theorem within_exhausted (h : X) : Within n m X (exhausted : Rule α) :=
  fun _ _ => ⟨Nat.zero_le _, h⟩

/-- The condition for one state: the second rule has to be within the same bounds from wherever
the first one leads. -/
theorem bounds_bind {r : Rule α} {f : α → Rule β} {s : State}
    (hr : r.nesting s ≤ m ∧ (r s).Satisfies (fun _ _ => True) (fun _ => True) X)
    (hf : (r s).Satisfies (fun a s' => (f a).nesting s' ≤ m ∧
      ((f a) s').Satisfies (fun _ _ => True) (fun _ => True) X) (fun _ => True) True) :
    (r >>= f).nesting s ≤ m ∧ ((r >>= f) s).Satisfies (fun _ _ => True) (fun _ => True) X := by
  change (Rule.bind r f).nesting s ≤ m ∧
    (Rule.bind r f s).Satisfies (fun _ _ => True) (fun _ => True) X
  rw [nesting, run]
  obtain ⟨hnesting, hends⟩ := hr
  cases h : r s with
  | found a s' =>
      rw [h] at hf
      exact ⟨Nat.max_le.mpr ⟨hnesting, hf.1⟩, hf.2⟩
  | failed s' => exact ⟨Nat.max_le.mpr ⟨hnesting, Nat.zero_le _⟩, trivial⟩
  | exhausted =>
      rw [h] at hends
      exact ⟨Nat.max_le.mpr ⟨hnesting, Nat.zero_le _⟩, hends⟩

theorem within_bind {r : Rule α} {f : α → Rule β} (hr : Within n m X r)
    (hf : ∀ a, Within n m X (f a)) : Within n m X (r >>= f) := by
  intro s hs
  apply bounds_bind (hr s hs)
  exact (r.size_le s).mono (fun a s' h => hf a s' (Nat.le_trans h hs)) (fun _ _ => trivial) id

theorem within_ite {p : Prop} [Decidable p] {r r' : Rule α} (hr : Within n m X r)
    (hr' : Within n m X r') : Within n m X (if p then r else r') := by
  split
  · exact hr
  · exact hr'

theorem within_expect (want : Token.Kind) : Within n m X (expect want) :=
  within_bind within_peek fun _ =>
    within_ite (within_bind within_advance fun _ => within_pure _) (within_fail _)

theorem within_accept (kind : Token.Kind) : Within n m X (accept kind) :=
  within_bind within_peek fun _ =>
    within_ite (within_bind within_advance fun _ => within_pure _) (within_pure _)

theorem within_attempt {r : Rule Stmt} (hr : Within n m X r) : Within n m X (attempt r) := by
  intro s hs
  rw [satisfies_attempt]
  exact hr s hs

theorem within_traced (name : RuleName) {r : Rule α} (hr : Within n m X r) :
    Within n (m + 1) X (traced name r) := by
  intro s hs
  rw [satisfies_traced]
  obtain ⟨hnesting, hends⟩ := hr (s.enter name) (by rwa [State.size_enter])
  exact ⟨Nat.succ_le_succ hnesting, hends⟩

theorem within_silent {r : Rule α} (hr : Within n m X r) : Within n (m + 1) X (silent r) := by
  intro s hs
  obtain ⟨hnesting, hends⟩ := hr s hs
  exact ⟨Nat.succ_le_succ hnesting, hends⟩

/-- After a token has been taken up, one token less is left. -/
theorem within_past {f : Unit → Rule α} (hf : ∀ u, Within n m X (f u)) :
    Within (n + 1) m X (advance >>= f) := by
  intro s hs
  apply bounds_bind (within_advance s hs)
  exact hf () s.advance (by rw [State.size_advance]; omega)

theorem within_pastExpected {f : Token → Rule α} (want : Token.Kind)
    (hf : ∀ token, Within n m X (f token)) : Within (n + 1) m X (expect want >>= f) := by
  intro s hs
  apply bounds_bind (within_expect want s hs)
  rw [satisfies_expect]
  refine ⟨fun _ => hf _ s.advance ?_, fun _ => trivial⟩
  rw [State.size_advance]
  omega

/-- A loop is cut off only if a round is, or if its bound is not above a measure of the state that
every round but the last makes smaller. -/
theorem within_iterate {round : α → Rule (α ⊕ β)} {bound : Nat} (measure : State → Nat)
    (hround : ∀ a, Within n m X (round a))
    (hless : ∀ a s, s.size ≤ n → (round a s).Satisfies
      (fun x s' => x.isLeft = true → measure s' < measure s) (fun _ => True) True)
    (hbound : X ∨ ∀ s : State, s.size ≤ n → measure s < bound) (a : α) :
    Within n m X (iterate round bound a) := by
  have hloop : ∀ (bound : Nat) (a : α) (s : State), s.size ≤ n → X ∨ measure s < bound →
      (iterate round bound a).nesting s ≤ m ∧
        (iterate round bound a s).Satisfies (fun _ _ => True) (fun _ => True) X := by
    intro bound
    induction bound with
    | zero =>
        intro a s hs h
        exact within_exhausted (h.resolve_right (Nat.not_lt_zero _)) s hs
    | succ bound ih =>
        intro a s hs h
        apply bounds_bind (hround a s hs)
        refine (((round a).size_le s).and (hless a s hs)).mono ?_ (fun _ _ => trivial)
          (fun _ => trivial)
        intro x s' hx
        have hs' : s'.size ≤ n := Nat.le_trans hx.1 hs
        cases x with
        | inl a' =>
            have hmeasure : measure s' < measure s := hx.2 rfl
            exact ih a' s' hs' (h.imp id fun h => by omega)
        | inr b => exact within_pure b s' hs'
  exact fun s hs => hloop bound a s hs (hbound.imp id fun h => h s hs)

end Combinators

section Rounds

variable {α β : Type} {s : State} {X : Prop}

/-- A round that does not end its loop takes up a token, even if it fails. It is cut off under the
condition `X` only. -/
def TakesToken (round : Rule (α ⊕ β)) (s : State) (X : Prop) : Prop :=
  (round s).Satisfies (fun x s' => x.isLeft = true ∧ s'.size < s.size)
    (fun s' => s'.size < s.size) X

theorem TakesToken.size_lt {round : Rule (α ⊕ β)} (h : TakesToken round s X) : (round s).Satisfies
    (fun x s' => x.isLeft = true → s'.size < s.size) (fun _ => True) True :=
  h.mono (fun _ _ h _ => h.2) (fun _ _ => trivial) fun _ => trivial

theorem TakesToken.cutOff {round : Rule (α ⊕ β)} {m : Nat} (h : TakesToken round s True)
    (hround : Within s.size m X round) : TakesToken round s X :=
  (h.and (hround s (Nat.le_refl _)).2).mono (fun _ _ h => h.1) (fun _ h => h.1) fun h => h.2

theorem statementRound_takesToken {stop : Token.Kind → Bool} (hstop : stop .eof = true)
    (hgo : stop s.input.current.kind = false) (sub : ExprRule) (done : List Stmt) :
    TakesToken (statementRound sub stop done) s True := by
  have hpos : 0 < s.size := State.size_pos fun heof => by
    rw [State.current_kind, heof, hstop] at hgo
    cases hgo
  simp only [TakesToken, statementRound, satisfies_bind, satisfies_current, satisfies_ite, hgo,
    satisfies_attempt, satisfies_advance, satisfies_pure, State.size_advance]
  refine ⟨fun h => absurd h Bool.false_ne_true, fun _ => ((statement sub).size_le s).mono ?_ ?_ id⟩
  · exact fun _ _ h => ⟨rfl, by omega⟩
  · exact fun _ h => ⟨rfl, by omega⟩

theorem operatorRound_takesToken {level : Level} (hlevel : level < Level.ofKind s.input.peek.kind)
    (sub : ExprRule) (bound : Nat) (left : Expr) :
    TakesToken (operatorRound sub bound level left) s True := by
  have hsize : 1 < s.size := State.one_lt_size fun heof => by
    rw [State.peek_kind, heof] at hlevel
    exact Nat.not_lt_zero _ hlevel
  have hlonger (r : Rule Expr) : (r s.advance).Satisfies
      (fun _ s' => true = true ∧ s'.size < s.size) (fun s' => s'.size < s.size) True := by
    have hle := r.size_le s.advance
    rw [State.size_advance] at hle
    exact hle.mono (fun _ _ h => ⟨rfl, by omega⟩) (fun _ h => by omega) id
  simp only [TakesToken, operatorRound, satisfies_bind, satisfies_peek, satisfies_ite, hlevel,
    satisfies_advance, satisfies_pure]
  exact ⟨fun _ => ⟨fun _ => hlonger _, fun _ => hlonger _⟩, fun h => absurd trivial h⟩

theorem paramRound_takesToken (hcomma : s.input.peek.kind = .comma) (done : List Ident) :
    TakesToken (paramRound done) s False := by
  rw [State.peek_kind] at hcomma
  have hsize : 1 < s.size := State.one_lt_size (by simp [hcomma])
  simp only [TakesToken, paramRound, satisfies_bind, satisfies_accept, satisfies_ite,
    satisfies_expect, satisfies_pure, State.size_advance, State.size_report]
  refine ⟨fun _ => ⟨fun _ => ?_, fun h => absurd trivial h⟩, fun h => absurd hcomma h⟩
  exact ⟨fun _ => ⟨rfl, by omega⟩, fun _ => by omega⟩

theorem argRound_takesToken (hcomma : s.input.peek.kind = .comma) (sub : ExprRule)
    (done : List Expr) : TakesToken (argRound sub done) s True := by
  rw [State.peek_kind] at hcomma
  have hsize : 1 < s.size := State.one_lt_size (by simp [hcomma])
  have harg := (sub .lowest).size_le s.advance.advance
  simp only [State.size_advance] at harg
  simp only [TakesToken, argRound, satisfies_bind, satisfies_accept, satisfies_ite,
    satisfies_advance, satisfies_expect, satisfies_pure]
  refine ⟨fun _ => ⟨fun _ => ?_, fun h => absurd trivial h⟩, fun h => absurd hcomma h⟩
  exact harg.mono (fun _ _ h => ⟨rfl, by omega⟩) (fun _ h => by omega) id

end Rounds

section Rules

variable {sub : ExprRule} {n m bound : Nat} {X : Prop}

theorem within_statement (hsub : ∀ level, Within n m X (sub level)) :
    Within n (m + 2) X (statement sub) := by
  have hend : ∀ stmt : Stmt, Within n m X (accept .semicolon >>= fun _ => pure stmt) :=
    fun stmt => within_bind (within_accept _) fun _ => within_pure _
  have hbinding : Within n (m + 1) X (binding sub) :=
    within_traced _ <| within_bind within_current fun _ => within_bind (within_expect _) fun _ =>
      within_bind (within_expect _) fun _ => within_bind within_advance fun _ =>
        within_bind (hsub _) fun _ => hend _
  have hreturning : Within n (m + 1) X (returning sub) :=
    within_traced _ <| within_bind within_current fun _ => within_bind within_advance fun _ =>
      within_bind (hsub _) fun _ => hend _
  have hexpr : Within n (m + 1) X (exprStmt sub) :=
    within_traced _ <| within_bind within_current fun _ => within_bind (hsub _) fun _ => hend _
  apply within_silent
  refine within_bind within_current fun token => ?_
  cases token.kind <;> assumption

theorem within_statementRound (hsub : ∀ level, Within n m X (sub level))
    (stop : Token.Kind → Bool) (done : List Stmt) :
    Within n (m + 2) X (statementRound sub stop done) := by
  refine within_bind within_current fun _ => within_ite (within_pure _) ?_
  exact within_bind (within_attempt (within_statement hsub)) fun _ =>
    within_bind within_advance fun _ => within_pure _

theorem within_statements (hsub : ∀ level, Within n m X (sub level)) (hbound : X ∨ n < bound)
    {stop : Token.Kind → Bool} (hstop : stop .eof = true) :
    Within n (m + 2) X (statements sub bound stop) := by
  apply within_iterate State.size (within_statementRound hsub stop)
  · intro done s _
    cases hgo : stop s.input.current.kind with
    | false => exact (statementRound_takesToken hstop hgo sub done).size_lt
    | true => simp [statementRound, satisfies_bind, satisfies_current, satisfies_ite,
        satisfies_pure, hgo]
  · exact hbound.imp id fun h s hs => Nat.lt_of_le_of_lt hs h

theorem within_block (hsub : ∀ level, Within n m X (sub level)) (hbound : X ∨ n < bound) :
    Within n (m + 3) X (block sub bound) :=
  within_traced _ <| within_bind within_current fun _ => within_bind within_advance fun _ =>
    within_bind (within_statements hsub hbound rfl) fun _ => within_pure _

theorem within_params (hbound : X ∨ n < bound) : Within n (m + 1) X (params bound) := by
  refine within_silent <| within_bind (within_accept _) fun _ => within_ite (within_pure _) ?_
  refine within_bind (within_expect _) fun _ => ?_
  apply within_iterate State.size
  · intro done
    refine within_bind (within_accept _) fun _ => within_ite ?_ ?_
    · exact within_bind (within_expect _) fun _ => within_pure _
    · exact within_bind (within_expect _) fun _ => within_pure _
  · intro done s _
    by_cases hcomma : s.input.peek.kind = .comma
    · exact (paramRound_takesToken hcomma done).size_lt
    · rw [State.peek_kind] at hcomma
      simp [paramRound, satisfies_bind, satisfies_accept, satisfies_ite, satisfies_expect,
        satisfies_pure, hcomma]
  · exact hbound.imp id fun h s hs => Nat.lt_of_le_of_lt hs h

theorem within_argRound (hsub : ∀ level, Within n m X (sub level)) (done : List Expr) :
    Within (n + 1) m X (argRound sub done) := by
  refine within_bind (within_accept _) fun _ => within_ite ?_ ?_
  · exact within_past fun _ => within_bind (hsub _) fun _ => within_pure _
  · exact within_bind (within_expect _) fun _ => within_pure _

theorem within_args (hsub : ∀ level, Within n m X (sub level)) (hbound : X ∨ n < bound) :
    Within n (m + 1) X (args sub bound) := by
  refine within_silent <| within_bind (within_accept _) fun _ => within_ite (within_pure _) ?_
  refine within_bind within_advance fun _ => within_bind (hsub _) fun _ => ?_
  apply within_iterate State.size
  · exact fun done => (within_argRound hsub done).mono (Nat.le_succ n) (Nat.le_refl m) id
  · intro done s _
    by_cases hcomma : s.input.peek.kind = .comma
    · exact (argRound_takesToken hcomma sub done).size_lt
    · rw [State.peek_kind] at hcomma
      simp [argRound, satisfies_bind, satisfies_accept, satisfies_ite, satisfies_expect,
        satisfies_pure, hcomma]
  · exact hbound.imp id fun h s hs => Nat.lt_of_le_of_lt hs h

theorem within_integer : Within n (m + 1) X integer := by
  refine within_traced _ <| within_bind within_current fun token => ?_
  cases Text.Decimal.int64? token.literal with
  | none => exact within_fail _
  | some value => exact within_pure _

theorem within_unary (hsub : ∀ level, Within n m X (sub level)) :
    Within (n + 1) (m + 1) X (unary sub) :=
  within_traced _ <| within_bind within_current fun _ => within_past fun _ =>
    within_bind (hsub _) fun _ => within_pure _

theorem within_group (hsub : ∀ level, Within n m X (sub level)) :
    Within (n + 1) (m + 1) X (group sub) :=
  within_silent <| within_past fun _ => within_bind (hsub _) fun _ =>
    within_bind (within_expect _) fun _ => within_pure _

theorem within_cond (hsub : ∀ level, Within n m X (sub level)) (hbound : X ∨ n < bound) :
    Within (n + 1) (m + 4) X (cond sub bound) := by
  have hblock := within_block hsub hbound
  refine within_traced _ <| within_bind within_current fun _ => within_pastExpected _ fun _ => ?_
  refine within_bind within_advance fun _ => within_bind ((hsub _).add 3) fun _ => ?_
  refine within_bind (within_expect _) fun _ => within_bind (within_expect _) fun _ => ?_
  refine within_bind hblock fun _ => within_bind (within_accept _) fun _ => ?_
  refine within_ite ?_ (within_pure _)
  exact within_bind (within_expect _) fun _ => within_bind hblock fun _ => within_pure _

theorem within_function (hsub : ∀ level, Within n m X (sub level)) (hbound : X ∨ n < bound) :
    Within (n + 1) (m + 4) X (function sub bound) := by
  refine within_traced _ <| within_bind within_current fun _ => within_pastExpected _ fun _ => ?_
  refine within_bind (within_params hbound) fun _ => within_bind (within_expect _) fun _ => ?_
  exact within_bind (within_block hsub hbound) fun _ => within_pure _

theorem within_call (hsub : ∀ level, Within n m X (sub level)) (hbound : X ∨ n < bound)
    (callee : Expr) : Within n (m + 2) X (call sub bound callee) :=
  within_traced _ <| within_bind within_current fun _ => within_bind (within_args hsub hbound)
    fun _ => within_pure _

theorem within_binary (hsub : ∀ level, Within n m X (sub level)) (left : Expr) :
    Within n (m + 1) X (binary sub left) :=
  within_traced _ <| within_bind within_current fun _ => within_bind within_advance fun _ =>
    within_bind (hsub _) fun _ => within_pure _

theorem within_operand (hsub : ∀ level, Within n m X (sub level)) (hbound : X ∨ n < bound) :
    Within (n + 1) (m + 4) X (operand sub bound) := by
  have hleaf : ∀ e : Expr, Within (n + 1) (m + 4) X (silent (pure e)) :=
    fun e => within_silent (within_pure e)
  refine within_bind within_current fun token => ?_
  cases token.kind with
  | ident => exact hleaf _
  | int => exact within_integer
  | bang => exact (within_unary hsub).add 3
  | minus => exact (within_unary hsub).add 3
  | «true» => exact hleaf _
  | «false» => exact hleaf _
  | lparen => exact (within_group hsub).add 3
  | «if» => exact within_cond hsub hbound
  | function => exact within_function hsub hbound
  | _ => exact within_fail _

theorem within_operatorRound (hsub : ∀ level, Within n m X (sub level)) (hbound : X ∨ n < bound)
    (level : Level) (left : Expr) :
    Within (n + 1) (m + 4) X (operatorRound sub bound level left) := by
  have hlonger : ∀ {r : Rule Expr}, Within n (m + 4) X r →
      Within n (m + 4) X (r >>= fun longer => pure (Sum.inl longer : Expr ⊕ Expr)) :=
    fun hr => within_bind hr fun _ => within_pure _
  refine within_bind within_peek fun next => within_ite ?_ (within_pure _)
  refine within_past fun _ => ?_
  split
  · exact hlonger ((within_call hsub hbound left).add 2)
  · exact hlonger ((within_binary hsub left).add 3)

/-- The operators after an operand. There is none without a token after the current one, so that
the rounds are fewer than the tokens. -/
theorem within_operators (hsub : ∀ level, Within n m X (sub level)) (hbound : X ∨ n < bound)
    (level : Level) (left : Expr) :
    Within (n + 1) (m + 4) X (iterate (operatorRound sub bound level) bound left) := by
  apply within_iterate (fun s => s.size - 1) (within_operatorRound hsub hbound level)
  · intro left s _
    by_cases hlevel : level < Level.ofKind s.input.peek.kind
    · have hsize : 1 < s.size := State.one_lt_size fun heof => by
        rw [State.peek_kind, heof] at hlevel
        exact Nat.not_lt_zero _ hlevel
      refine (operatorRound_takesToken hlevel sub bound left).size_lt.mono ?_ (fun _ h => h) id
      intro x s' hlt hx
      have hlt := hlt hx
      omega
    · simp [operatorRound, satisfies_bind, satisfies_peek, satisfies_ite, satisfies_pure, hlevel]
  · exact hbound.imp id fun h s hs => by omega

/-- Where the input has ended there is no operand, and no other rule is called for one. -/
theorem operand_at_end (sub : ExprRule) (bound : Nat) (s : State) (hs : s.size = 0) :
    (operand sub bound).nesting s = 0 ∧
      (operand sub bound s).Satisfies (fun _ _ => False) (fun _ => True) False := by
  have heof : s.input.current.kind = .eof := by
    rw [State.current_kind, List.eq_nil_of_length_eq_zero hs, leadKind_nil]
  constructor
  · change Nat.max 0 (nesting _ s) = 0
    beta_reduce
    rw [heof]
    rfl
  · simp [operand, satisfies_bind, satisfies_current, satisfies_fail, heof]

end Rules

/-- Each token makes room for at most five more calls inside each other, and an expression with
fewer tokens than its bound is never cut off. -/
theorem within_expression (n bound : Nat) (level : Level) :
    Within n (5 * n + 1) (bound ≤ n) (expression bound level) := by
  induction n generalizing bound level with
  | zero =>
      cases bound with
      | zero => exact within_exhausted (Nat.le_refl 0)
      | succ bound =>
          refine within_traced _ fun s hs => ?_
          obtain ⟨hnesting, hfails⟩ :=
            operand_at_end (expression bound) bound s (Nat.le_zero.mp hs)
          apply bounds_bind
          · constructor
            · exact Nat.le_of_eq hnesting
            · exact hfails.mono (fun _ _ h => h.elim) (fun _ h => h) False.elim
          · exact hfails.mono (fun _ _ h => h.elim) (fun _ h => h) False.elim
  | succ n ih =>
      cases bound with
      | zero => exact within_exhausted (Nat.zero_le _)
      | succ bound =>
          have hbound : bound ≤ n ∨ n < bound := Nat.lt_or_ge n bound |>.symm
          have hwithin := within_traced .expression <|
            within_bind (within_operand (ih bound) hbound)
              (within_operators (ih bound) hbound level)
          exact hwithin.mono (Nat.le_refl _) (Nat.le_refl _) Nat.succ_le_succ

theorem within_program (n bound : Nat) : Within n (5 * n + 4) (bound ≤ n) (program bound) :=
  within_silent <| within_bind
    (within_statements (within_expression n bound) (Nat.lt_or_ge n bound).symm rfl)
    fun _ => within_pure _

/-- A list of statements goes on after every failure, up to a token that stops it. -/
theorem statements_stopped (sub : ExprRule) (bound : Nat) (stop : Token.Kind → Bool) (s : State) :
    (statements sub bound stop s).Satisfies (fun _ s' => stop s'.input.current.kind = true)
      (fun _ => False) True := by
  refine satisfies_iterate (fun _ _ => True)
    (fun _ _ _ s' => stop s'.input.current.kind = true) (fun done s₁ _ => ?_) bound [] s trivial
  simp only [statementRound, satisfies_bind, satisfies_current, satisfies_ite, satisfies_pure,
    satisfies_attempt, satisfies_advance]
  refine ⟨fun hstop => hstop, fun _ => ?_⟩
  cases statement sub s₁ <;> simp [Satisfies, RoundFits]

/-- With any bound above the number of tokens, a stream is read up to an end token. -/
theorem program_reaches_end {input : Token.Stream} {bound : Nat}
    (hbound : input.items.length < bound) (tracing : Bool) :
    ∃ p s, program bound (.ofStream tracing input) = .found p s ∧
      s.input.current.kind = .eof := by
  have hends := (within_program input.items.length bound (.ofStream tracing input)
    (Nat.le_refl _)).2
  have hstops : (program bound (.ofStream tracing input)).Satisfies
      (fun _ s => s.input.current.kind = .eof) (fun _ => False) True := by
    simp only [program, satisfies_silent, satisfies_bind, satisfies_pure]
    exact (statements_stopped _ _ _ _).mono (fun _ _ h => of_decide_eq_true h) (fun _ h => h) id
  cases h : program bound (.ofStream tracing input) with
  | found p s => exact ⟨p, s, rfl, hstops.of_found h⟩
  | failed s =>
      rw [h] at hstops
      exact hstops.elim
  | exhausted =>
      rw [h] at hends
      exact absurd hbound (Nat.not_lt_of_ge hends)

/-- Every stream is read to its end, and the answer is what the rule for programs finds. -/
theorem parse_eq (input : Token.Stream) (tracing : Bool) :
    ∃ p s, program (boundFor input) (.ofStream tracing input) = .found p s ∧
      parse input tracing = ⟨p, s.faults.reverse, s.notes.reverse⟩ := by
  obtain ⟨p, s, hfound, _⟩ := program_reaches_end (Nat.lt_succ_self input.items.length) tracing
  refine ⟨p, s, hfound, ?_⟩
  rw [parse, boundFor, hfound]

end Monkey.Grammar
