import Monkey.Proofs.Grammar.Derivation
import Monkey.Proofs.Grammar.Halting
import Monkey.Proofs.Tree.Relabel

/-!
# What has a derivation is read

A list of tokens that is derived as a program is read as that program, and nothing is found wrong.
Places are of no account: the derivation may be about the tokens at other places than those that
are read, and the program that is read is then the one of the derivation but for the places.

Operators are read from left to right, while in a derivation the operand on the left is a tree of
its own. For that reason what is shown of an expression is not what the rule for expressions makes
of it, but that the loop over operators, once started before the expression, gets to the point
where it has the whole expression as its left operand.
-/

namespace Monkey

/-- The expression ends with a condition that has no alternative. -/
def Expr.Dangling : Expr → Prop
  | .cond _ _ _ none => True
  | .unary _ _ right => right.Dangling
  | .binary _ _ _ right => right.Dangling
  | _ => False
termination_by structural e => e

def Stmt.Dangling : Stmt → Prop
  | .bind _ _ value => value.Dangling
  | .ret _ value => value.Dangling
  | .expr _ value => value.Dangling
  | _ => False

namespace Grammar

open Rule Outcome

/-- What may come after an expression of some level. If it is `dangling`, an alternative after it
would belong to it. -/
def Follows (dangling : Prop) (level : Level) (kind : Token.Kind) : Prop :=
  (Level.ofKind kind).rank ≤ level.rank ∧ (dangling → kind ≠ .else)

/-- What is left of `rest` once a semicolon at its beginning has been taken. -/
def AfterSemicolon (rest rest' : List Token) : Prop :=
  (∃ semi, semi.kind = .semicolon ∧ rest = semi :: rest') ∨
    (rest = rest' ∧ leadKind rest ≠ .semicolon)

/-- From `s` the rule finds something of which `A` holds, reports nothing, and leaves `rest`
ahead. -/
def Finds {α : Type} (move : Position → Position) (r : Rule α) (A : α → Prop) (s : State)
    (rest : List Token) : Prop :=
  (r s).Satisfies
    (fun a s' => A a ∧ s'.ahead.map (Token.moved move) = rest ∧ s'.faults = s.faults)
    (fun _ => False) True

section Tokens

variable {move : Position → Position} {s : State} {t : Token} {ts rest : List Token}

@[simp] theorem leadKind_map : leadKind (ts.map (Token.moved move)) = leadKind ts := by
  cases ts <;> rfl

theorem current_of_map (h : s.tokens.map (Token.moved move) = t :: rest) :
    leadKind s.tokens = t.kind ∧ s.input.current.moved move = t ∧
      s.ahead.map (Token.moved move) = rest := by
  obtain ⟨u, us, hus, rfl, rfl⟩ := List.map_eq_cons_iff.mp h
  rw [State.current_of_tokens hus, State.ahead_of_tokens hus, hus]
  exact ⟨rfl, rfl, rfl⟩

theorem peek_of_map (h : s.ahead.map (Token.moved move) = t :: rest) :
    leadKind s.ahead = t.kind ∧ s.input.peek.moved move = t ∧
      s.advance.ahead.map (Token.moved move) = rest := by
  rw [← State.tokens_advance] at h ⊢
  exact current_of_map h

theorem leadKind_tokens_of_map (h : s.tokens.map (Token.moved move) = ts) :
    leadKind s.tokens = leadKind ts := by
  rw [← h, leadKind_map]

theorem leadKind_ahead_of_map (h : s.ahead.map (Token.moved move) = ts) :
    leadKind s.ahead = leadKind ts := by
  rw [← h, leadKind_map]

theorem finds_traced {α : Type} {name : RuleName} {r : Rule α} {A : α → Prop}
    (h : ∀ s₀ : State, s₀.tokens = s.tokens → Finds move r A s₀ rest) :
    Finds move (traced name r) A s rest := by
  have h₀ := h (s.enter name) (State.tokens_enter name s)
  simpa [Finds, satisfies_traced] using h₀

end Tokens

section Rules

variable {move : Position → Position} {sub : ExprRule} {bound : Nat} {s : State}
  {ts rest rest' : List Token}

/-- The rule for expressions finds `e` in front of `rest`. -/
def FindsExpr (move : Position → Position) (sub : ExprRule) (level : Level) (e : Expr)
    (ts rest : List Token) : Prop :=
  ∀ s : State, s.tokens.map (Token.moved move) = ts ++ rest →
    Finds move (sub level) (fun e' => e'.moved move = e) s rest

theorem accept_semicolon_finds {stmt : Stmt} {s₁ : State}
    (hrest : AfterSemicolon rest rest') (h₁ : s₁.ahead.map (Token.moved move) = rest)
    (hfaults : s₁.faults = s.faults) :
    ((accept .semicolon >>= fun _ => pure stmt) s₁).Satisfies
      (fun a s' => a.moved move = stmt.moved move ∧
        s'.ahead.map (Token.moved move) = rest' ∧ s'.faults = s.faults)
      (fun _ => False) True := by
  simp only [satisfies_bind, satisfies_accept, satisfies_pure, leadKind_ahead_of_map h₁,
    true_and]
  rcases hrest with ⟨semi, hsemi, rfl⟩ | ⟨rfl, hne⟩
  · exact ⟨fun _ => ⟨(peek_of_map h₁).2.2, hfaults⟩, fun hne => absurd hsemi hne⟩
  · exact ⟨fun hsemi => absurd hsemi hne, fun _ => ⟨h₁, hfaults⟩⟩

theorem binding_finds {t name eq : Token} {v : Expr} (hname : name.kind = .ident)
    (heq : eq.kind = .assign) (hvalue : FindsExpr move sub .lowest v ts rest)
    (hrest : AfterSemicolon rest rest')
    (h : s.tokens.map (Token.moved move) = t :: name :: eq :: (ts ++ rest)) :
    Finds move (binding sub) (fun a => a.moved move = .bind t ⟨name, name.literal⟩ v) s rest' := by
  refine finds_traced fun s₀ hs₀ => ?_
  rw [← hs₀] at h
  obtain ⟨-, rfl, h₁⟩ := current_of_map h
  obtain ⟨hpeek, rfl, h₂⟩ := peek_of_map h₁
  obtain ⟨hpeek', rfl, h₃⟩ := peek_of_map h₂
  simp only [Finds, satisfies_bind (β := Token), satisfies_bind (β := Unit),
    satisfies_bind (β := Expr), satisfies_current, satisfies_expect, satisfies_advance,
    hpeek.trans hname, hpeek'.trans heq, ne_eq, not_true_eq_false, true_implies, false_implies,
    and_true]
  refine (hvalue _ (by simpa using h₃)).mono ?_ (fun _ h => h) id
  rintro value s₁ ⟨rfl, hafter, hfaults⟩
  exact accept_semicolon_finds hrest hafter hfaults

theorem returning_finds {t : Token} {v : Expr} (hvalue : FindsExpr move sub .lowest v ts rest)
    (hrest : AfterSemicolon rest rest')
    (h : s.tokens.map (Token.moved move) = t :: (ts ++ rest)) :
    Finds move (returning sub) (fun a => a.moved move = .ret t v) s rest' := by
  refine finds_traced fun s₀ hs₀ => ?_
  rw [← hs₀] at h
  obtain ⟨-, rfl, h₁⟩ := current_of_map h
  simp only [Finds, satisfies_bind (β := Token), satisfies_bind (β := Unit),
    satisfies_bind (β := Expr), satisfies_current, satisfies_advance]
  refine (hvalue _ (by simpa using h₁)).mono ?_ (fun _ h => h) id
  rintro value s₁ ⟨rfl, hafter, hfaults⟩
  exact accept_semicolon_finds hrest hafter hfaults

theorem exprStmt_finds {t : Token} {v : Expr}
    (hvalue : FindsExpr move sub .lowest v (t :: ts) rest) (hrest : AfterSemicolon rest rest')
    (h : s.tokens.map (Token.moved move) = t :: (ts ++ rest)) :
    Finds move (exprStmt sub) (fun a => a.moved move = .expr t v) s rest' := by
  refine finds_traced fun s₀ hs₀ => ?_
  rw [← hs₀] at h
  obtain ⟨-, rfl, -⟩ := current_of_map h
  simp only [Finds, satisfies_bind (β := Token), satisfies_bind (β := Expr), satisfies_current]
  refine (hvalue _ h).mono ?_ (fun _ h => h) id
  rintro value s₁ ⟨rfl, hafter, hfaults⟩
  exact accept_semicolon_finds hrest hafter hfaults

theorem integer_finds {t : Token} {value : Int64}
    (hvalue : Text.Decimal.int64? t.literal = some value)
    (h : s.tokens.map (Token.moved move) = t :: rest) :
    Finds move integer (fun a => a.moved move = .int t value) s rest := by
  refine finds_traced fun s₀ hs₀ => ?_
  rw [← hs₀] at h
  obtain ⟨-, rfl, h₁⟩ := current_of_map h
  simp only [Token.literal_moved] at hvalue
  simp only [Finds, satisfies_bind, satisfies_current, hvalue]
  exact ⟨rfl, h₁, rfl⟩

theorem unary_finds {t : Token} {r : Expr} (hright : FindsExpr move sub .unary r ts rest)
    (h : s.tokens.map (Token.moved move) = t :: (ts ++ rest)) :
    Finds move (unary sub) (fun a => a.moved move = .unary t t.literal r) s rest := by
  refine finds_traced fun s₀ hs₀ => ?_
  rw [← hs₀] at h
  obtain ⟨-, rfl, h₁⟩ := current_of_map h
  simp only [Finds, satisfies_bind, satisfies_current, satisfies_advance]
  refine (hright _ (by simpa using h₁)).mono ?_ (fun _ h => h) id
  rintro right s₁ ⟨rfl, hafter, hfaults⟩
  exact ⟨rfl, hafter, hfaults⟩

theorem group_finds {lp rp : Token} {e : Expr} (hrp : rp.kind = .rparen)
    (hinside : FindsExpr move sub .lowest e ts (rp :: rest))
    (h : s.tokens.map (Token.moved move) = lp :: (ts ++ rp :: rest)) :
    Finds move (group sub) (fun a => a.moved move = e) s rest := by
  obtain ⟨-, rfl, h₁⟩ := current_of_map h
  simp only [Finds, group, satisfies_silent, satisfies_bind, satisfies_advance, satisfies_expect,
    satisfies_pure]
  refine (hinside _ (by simpa using h₁)).mono ?_ (fun _ h => h) id
  rintro inside s₁ ⟨rfl, hafter, hfaults⟩
  obtain ⟨hclose, -, hrest⟩ := peek_of_map hafter
  exact ⟨fun _ => ⟨rfl, hrest, hfaults⟩, fun hne => absurd (hclose.trans hrp) hne⟩

/-- The rule for blocks finds `b` in front of `rest`. -/
def FindsBlock (move : Position → Position) (sub : ExprRule) (bound : Nat) (b : Block)
    (ts rest : List Token) : Prop :=
  ∀ s : State, s.tokens.map (Token.moved move) = ts ++ rest →
    Finds move (block sub bound) (fun b' => b'.moved move = b) s rest

/-- Whether the tokens `ts` are those of an alternative with its keyword, in front of `rest`, or
there is none. -/
def FindsElse (move : Position → Position) (sub : ExprRule) (bound : Nat) (b? : Option Block)
    (ts rest : List Token) : Prop :=
  match b? with
  | none => ts = rest ∧ leadKind rest ≠ .else
  | some b => ∃ el bs, el.kind = .else ∧ leadKind (bs ++ rest) = .lbrace ∧
      ts = el :: (bs ++ rest) ∧ FindsBlock move sub bound b bs rest

theorem cond_finds {t lp rp : Token} {c : Expr} {b : Block} {b? : Option Block}
    {cs bs us : List Token} (hlp : lp.kind = .lparen) (hrp : rp.kind = .rparen)
    (hcondition : FindsExpr move sub .lowest c cs (rp :: (bs ++ us)))
    (hopen : leadKind (bs ++ us) = .lbrace) (hconsequence : FindsBlock move sub bound b bs us)
    (halternative : FindsElse move sub bound b? us rest)
    (h : s.tokens.map (Token.moved move) = t :: lp :: (cs ++ rp :: (bs ++ us))) :
    Finds move (cond sub bound) (fun a => a.moved move = .cond t c b b?) s rest := by
  refine finds_traced fun s₀ hs₀ => ?_
  rw [← hs₀] at h
  obtain ⟨-, rfl, h₁⟩ := current_of_map h
  obtain ⟨hpeek, -, h₂⟩ := peek_of_map h₁
  simp only [Finds, satisfies_bind, satisfies_current, satisfies_expect, satisfies_advance,
    satisfies_accept, satisfies_ite, satisfies_pure, hpeek.trans hlp, Bool.false_eq_true, ne_eq,
    true_implies, false_implies, not_true_eq_false, not_false_eq_true, and_true, true_and]
  refine (hcondition _ (by simpa using h₂)).mono ?_ (fun _ h => h) id
  rintro condition s₁ ⟨rfl, hafter₁, hfaults₁⟩
  obtain ⟨hclose, -, hafter₁'⟩ := peek_of_map hafter₁
  have hbrace : leadKind s₁.advance.ahead = .lbrace := by
    rw [leadKind_ahead_of_map hafter₁', hopen]
  simp only [hclose.trans hrp, hbrace, not_true_eq_false, true_implies, false_implies, and_true]
  refine (hconsequence _ (by simpa using hafter₁')).mono ?_ (fun _ h => h) id
  rintro consequence s₂ ⟨rfl, hafter₂, hfaults₂⟩
  have hfaults : s₂.faults = s₀.faults := hfaults₂.trans hfaults₁
  cases b? with
  | none =>
      obtain ⟨rfl, hne⟩ := halternative
      rw [leadKind_ahead_of_map hafter₂]
      exact ⟨fun helse => absurd helse hne, fun _ => ⟨rfl, hafter₂, hfaults⟩⟩
  | some b =>
      obtain ⟨el, bs', hel, hopen', rfl, hblock⟩ := halternative
      obtain ⟨helse, -, hafter₂'⟩ := peek_of_map hafter₂
      have hbrace' : leadKind s₂.advance.ahead = .lbrace := by
        rw [leadKind_ahead_of_map hafter₂', hopen']
      simp only [helse.trans hel, hbrace', not_true_eq_false, true_implies, false_implies,
        and_true]
      refine (hblock _ (by simpa using hafter₂')).mono ?_ (fun _ h => h) id
      rintro alternative s₃ ⟨rfl, hafter₃, hfaults₃⟩
      exact ⟨rfl, hafter₃, hfaults₃.trans hfaults⟩

theorem moreParams_finds {ids : List Ident} {ps : List Token} (hparams : MoreParams ids ps)
    {rp : Token} (hrp : rp.kind = .rparen) (count : Nat) (done : List Ident)
    (h : s.ahead.map (Token.moved move) = ps ++ rp :: rest) :
    Finds move (iterate paramRound count done)
      (fun a => ∃ more, a = done.reverse ++ more ∧
        more.map (Ident.relabel (Token.moved move)) = ids) s rest := by
  induction hparams generalizing s count done with
  | nil =>
      cases count with
      | zero => trivial
      | succ count =>
          obtain ⟨hpeek, -, h₁⟩ := peek_of_map h
          rw [Finds, satisfies_iterate_succ]
          simp only [paramRound, satisfies_bind, satisfies_accept, satisfies_ite,
            satisfies_expect, satisfies_pure, hpeek.trans hrp]
          simpa using h₁
  | @cons comma name ids ps hcomma hname htail ih =>
      cases count with
      | zero => trivial
      | succ count =>
          obtain ⟨hpeek, -, h₁⟩ := peek_of_map h
          obtain ⟨hpeek', rfl, h₂⟩ := peek_of_map h₁
          rw [Finds, satisfies_iterate_succ]
          simp only [paramRound, satisfies_bind, satisfies_accept, satisfies_ite,
            satisfies_expect, satisfies_pure, hpeek.trans hcomma, hpeek'.trans hname, ne_eq,
            not_true_eq_false, true_implies, false_implies, and_true, Sum.elim_inl]
          refine (ih count _ h₂).mono ?_ (fun _ h => h) id
          rintro _ s' ⟨⟨more, rfl, rfl⟩, hafter, hfaults⟩
          refine ⟨⟨⟨s.advance.input.peek, s.advance.input.peek.literal⟩ :: more, ?_, rfl⟩,
            hafter, hfaults⟩
          simp

theorem params_finds {ids : List Ident} {ps : List Token} (hparams : Params ids ps) {rp : Token}
    (hrp : rp.kind = .rparen) (h : s.ahead.map (Token.moved move) = ps ++ rp :: rest) :
    Finds move (params bound) (fun a => a.map (Ident.relabel (Token.moved move)) = ids) s rest := by
  cases hparams with
  | none =>
      obtain ⟨hpeek, -, h₁⟩ := peek_of_map h
      simp only [Finds, params, satisfies_silent, satisfies_bind, satisfies_accept, satisfies_ite,
        satisfies_pure, hpeek.trans hrp]
      simpa using h₁
  | some hname more =>
      obtain ⟨hpeek, rfl, h₁⟩ := peek_of_map h
      simp only [Finds, params, satisfies_silent, satisfies_bind, satisfies_accept, satisfies_ite,
        satisfies_expect, satisfies_pure, hpeek.trans hname, Bool.false_eq_true, reduceCtorEq,
        ne_eq, true_implies, false_implies, not_true_eq_false, not_false_eq_true, and_true,
        true_and]
      refine (moreParams_finds more hrp bound _ h₁).mono ?_ (fun _ h => h) id
      rintro _ s' ⟨⟨more, rfl, rfl⟩, hafter, hfaults⟩
      exact ⟨rfl, hafter, hfaults⟩

theorem function_finds {t lp rp : Token} {ids : List Ident} {b : Block} {ps bs : List Token}
    (hlp : lp.kind = .lparen) (hparams : Params ids ps) (hrp : rp.kind = .rparen)
    (hopen : leadKind (bs ++ rest) = .lbrace) (hbody : FindsBlock move sub bound b bs rest)
    (h : s.tokens.map (Token.moved move) = t :: lp :: (ps ++ rp :: (bs ++ rest))) :
    Finds move (function sub bound) (fun a => a.moved move = .function t ids b) s rest := by
  refine finds_traced fun s₀ hs₀ => ?_
  rw [← hs₀] at h
  obtain ⟨-, rfl, h₁⟩ := current_of_map h
  obtain ⟨hpeek, -, h₂⟩ := peek_of_map h₁
  simp only [Finds, satisfies_bind, satisfies_current, satisfies_expect, satisfies_pure,
    hpeek.trans hlp, ne_eq, not_true_eq_false, true_implies, false_implies, and_true]
  refine (params_finds hparams hrp h₂).mono ?_ (fun _ h => h) id
  rintro params s₁ ⟨rfl, hafter₁, hfaults₁⟩
  have hbrace : leadKind s₁.ahead = .lbrace := by rw [leadKind_ahead_of_map hafter₁, hopen]
  simp only [hbrace, not_true_eq_false, true_implies, false_implies, and_true]
  refine (hbody _ (by simpa using hafter₁)).mono ?_ (fun _ h => h) id
  rintro body s₂ ⟨rfl, hafter₂, hfaults₂⟩
  exact ⟨rfl, hafter₂, hfaults₂.trans hfaults₁⟩

theorem block_finds {lb rb : Token} {ss : List Stmt}
    (hbody : ∀ s : State, s.tokens.map (Token.moved move) = ts ++ rb :: rest →
      (statements sub bound closesBlock s).Satisfies
        (fun a s' => Stmt.relabelEach (Token.moved move) (Token.moved move) a = ss ∧
          s'.tokens.map (Token.moved move) = rb :: rest ∧ s'.faults = s.faults)
        (fun _ => False) True) :
    FindsBlock move sub bound (.mk lb ss) (lb :: (ts ++ [rb])) rest := by
  intro s h
  refine finds_traced fun s₀ hs₀ => ?_
  rw [← hs₀] at h
  obtain ⟨-, rfl, h₁⟩ := current_of_map (by simpa using h)
  simp only [Finds, satisfies_bind, satisfies_current, satisfies_advance, satisfies_pure]
  refine (hbody _ (by simpa using h₁)).mono ?_ (fun _ h => h) id
  rintro stmts s' ⟨rfl, hafter, hfaults⟩
  exact ⟨rfl, (current_of_map hafter).2.2, hfaults⟩

theorem call_finds {lp : Token} {f : Expr} {es : List Expr} (callee : Expr)
    (hcallee : callee.moved move = f)
    (hargs : ∀ s : State, s.tokens.map (Token.moved move) = lp :: ts →
      Finds move (args sub bound)
        (fun a => Expr.relabelEach (Token.moved move) (Token.moved move) a = es) s rest)
    (h : s.tokens.map (Token.moved move) = lp :: ts) :
    Finds move (call sub bound callee) (fun a => a.moved move = .call lp f es) s rest := by
  refine finds_traced fun s₀ hs₀ => ?_
  rw [← hs₀] at h
  simp only [Finds, satisfies_bind, satisfies_current, satisfies_pure]
  refine (hargs s₀ h).mono ?_ (fun _ h => h) id
  obtain ⟨-, rfl, -⟩ := current_of_map h
  rintro list s' ⟨rfl, hafter, hfaults⟩
  subst hcallee
  exact ⟨rfl, hafter, hfaults⟩

theorem binary_finds {t : Token} {l r : Expr} {level : Level} (left : Expr)
    (hleft : left.moved move = l) (hop : t.kind ∈ level.operators)
    (hright : FindsExpr move sub level r ts rest)
    (h : s.tokens.map (Token.moved move) = t :: (ts ++ rest)) :
    Finds move (binary sub left) (fun a => a.moved move = .binary t t.literal l r) s rest := by
  refine finds_traced fun s₀ hs₀ => ?_
  rw [← hs₀] at h
  obtain ⟨-, rfl, h₁⟩ := current_of_map h
  rw [Token.kind_moved] at hop
  simp only [Finds, satisfies_bind, satisfies_current, satisfies_advance, satisfies_pure,
    Level.ofKind_of_mem_operators hop]
  refine (hright _ (by simpa using h₁)).mono ?_ (fun _ h => h) id
  rintro right s' ⟨rfl, hafter, hfaults⟩
  subst hleft
  exact ⟨rfl, hafter, hfaults⟩

end Rules

/-- What is shown of a phrase by induction on its derivation. For an expression: whatever the loop
over operators is good for once it has the expression as its left operand, it is good for when it
is started in front of the expression. -/
def Complete (move : Position → Position) : Phrase → List Token → Prop
  | .expr m e, ts => ∀ (level : Level) (bound count : Nat) (s : State) (rest : List Token)
      (P : Expr → State → Prop), level ≠ .call → level.inner.rank ≤ m.rank →
      Follows e.Dangling m (leadKind rest) → s.tokens.map (Token.moved move) = ts ++ rest →
      (∀ e' s' count', e'.moved move = e → s'.ahead.map (Token.moved move) = rest →
        s'.faults = s.faults →
        (iterate (operatorRound (expression bound) bound level) count' e' s').Satisfies P
          (fun _ => False) True) →
      ((operand (expression bound) bound >>=
        iterate (operatorRound (expression bound) bound level) count) s).Satisfies P
          (fun _ => False) True
  | .args es, ts => ∀ (bound : Nat) (s : State) (rp : Token) (rest : List Token),
      rp.kind = .rparen → s.ahead.map (Token.moved move) = ts ++ rp :: rest →
      Finds move (args (expression bound) bound)
        (fun a => Expr.relabelEach (Token.moved move) (Token.moved move) a = es) s rest
  | .moreArgs es, ts => ∀ (bound count : Nat) (done : List Expr) (s : State) (rp : Token)
      (rest : List Token), rp.kind = .rparen →
      s.ahead.map (Token.moved move) = ts ++ rp :: rest →
      Finds move (iterate (argRound (expression bound)) count done)
        (fun a => ∃ more, a = done.reverse ++ more ∧
          Expr.relabelEach (Token.moved move) (Token.moved move) more = es) s rest
  | .block b, ts => leadKind ts = .lbrace ∧ ∀ (bound : Nat) (rest : List Token),
      FindsBlock move (expression bound) bound b ts rest
  | .stmt stmt, ts => ∀ (bound : Nat) (s : State) (rest rest' : List Token),
      Follows stmt.Dangling .lowest (leadKind rest) → AfterSemicolon rest rest' →
      s.tokens.map (Token.moved move) = ts ++ rest →
      Finds move (statement (expression bound)) (fun a => a.moved move = stmt) s rest'
  | .stmts ss, ts => ∀ (bound count : Nat) (stop : Token.Kind → Bool) (done : List Stmt)
      (s : State) (rest : List Token), leadKind rest = .rbrace ∨ leadKind rest = .eof →
      stop (leadKind rest) = true → (∀ kind ∈ stmtStarters, stop kind = false) →
      s.tokens.map (Token.moved move) = ts ++ rest →
      (iterate (statementRound (expression bound) stop) count done s).Satisfies
        (fun a s' => (∃ more, a = done.reverse ++ more ∧
            Stmt.relabelEach (Token.moved move) (Token.moved move) more = ss) ∧
          s'.tokens.map (Token.moved move) = rest ∧ s'.faults = s.faults)
        (fun _ => False) True

section Complete

variable {move : Position → Position}

/-- What the loop over operators is good for, the rule for expressions is. -/
theorem Complete.findsExpr {e : Expr} {ts rest : List Token} (level : Level)
    (h : Complete move (.expr level.inner e) ts) (hlevel : level ≠ .call)
    (hrest : Follows e.Dangling level (leadKind rest)) (bound : Nat) :
    FindsExpr move (expression bound) level e ts rest := by
  intro s hs
  cases bound with
  | zero => trivial
  | succ bound =>
      refine finds_traced fun s₀ hs₀ => ?_
      rw [← hs₀] at hs
      have hinner : Follows e.Dangling level.inner (leadKind rest) :=
        ⟨Nat.le_trans hrest.1 level.le_inner, hrest.2⟩
      refine h level bound bound s₀ rest _ hlevel (Nat.le_refl _) hinner hs ?_
      intro e' s' count he hafter hfaults
      cases count with
      | zero => trivial
      | succ count =>
          have hstop : ¬ level < Level.ofKind s'.input.peek.kind := by
            rw [State.peek_kind, leadKind_ahead_of_map hafter]
            exact Nat.not_lt.mpr hrest.1
          rw [satisfies_iterate_succ]
          simp only [operatorRound, satisfies_bind, satisfies_peek, satisfies_ite, satisfies_pure]
          exact ⟨fun hgo => absurd hgo hstop, fun _ => ⟨he, hafter, hfaults⟩⟩

/-- An expression that is an operand by itself. -/
theorem complete_of_operand {m : Level} {e : Expr} {ts : List Token}
    (h : ∀ bound s rest, Follows e.Dangling m (leadKind rest) →
      s.tokens.map (Token.moved move) = ts ++ rest →
      Finds move (operand (expression bound) bound) (fun a => a.moved move = e) s rest) :
    Complete move (.expr m e) ts := by
  intro level bound count s rest P _ _ hrest hs hloop
  rw [satisfies_bind]
  refine (h bound s rest hrest hs).mono ?_ (fun _ h => h) id
  rintro e' s' ⟨he, hafter, hfaults⟩
  exact hloop e' s' count he hafter hfaults

theorem current_kind_of_map {s : State} {t : Token} {rest : List Token}
    (h : s.tokens.map (Token.moved move) = t :: rest) : s.input.current.kind = t.kind := by
  rw [State.current_kind, (current_of_map h).1]

/-- An expression of a single token. -/
theorem complete_of_atom {m : Level} {t : Token} (atom : Token → Expr)
    (hmoved : ∀ t, (atom t).moved move = atom (t.moved move))
    (hoperand : ∀ bound (s : State) (P : Expr → State → Prop), s.input.current.kind = t.kind →
      P (atom s.input.current) s →
      (operand (expression bound) bound s).Satisfies P (fun _ => False) True) :
    Complete move (.expr m (atom t)) [t] := by
  refine complete_of_operand fun bound s rest _ hs => ?_
  have hkind := current_kind_of_map hs
  obtain ⟨-, rfl, h₁⟩ := current_of_map hs
  exact hoperand bound s _ hkind ⟨hmoved _, h₁, rfl⟩

theorem complete_call {m : Level} {lp rp : Token} {f : Expr} {es : List Expr}
    {fs as : List Token} (hm : m.rank ≤ Level.call.rank)
    (hcallee : Complete move (.expr .call f) fs) (hlp : lp.kind = .lparen)
    (hargs : Complete move (.args es) as) (hrp : rp.kind = .rparen) :
    Complete move (.expr m (.call lp f es)) (fs ++ lp :: (as ++ [rp])) := by
  intro level bound count s rest P hlevel hinner _ hs hloop
  have hparen : leadKind (lp :: (as ++ rp :: rest)) = .lparen := hlp
  refine hcallee level bound count s (lp :: (as ++ rp :: rest)) P hlevel
    (Nat.le_trans hinner hm) ?_ (by simpa using hs) ?_
  · rw [hparen]
    exact ⟨Nat.le_refl _, by simp⟩
  · intro callee s₁ count hcallee' hafter hfaults
    cases count with
    | zero => trivial
    | succ count =>
        obtain ⟨hpeek, -⟩ := peek_of_map hafter
        have hkind : s₁.input.peek.kind = .lparen := by rw [State.peek_kind, hpeek, hlp]
        have hjoin : level < Level.ofKind .lparen := by
          have := Level.inner_le_unary hlevel
          have := level.le_inner
          simp only [Level.lt_iff_rank, Level.ofKind, Level.rank_call]
          simp only [Level.rank_unary] at *
          omega
        rw [satisfies_iterate_succ]
        simp only [operatorRound, satisfies_bind, satisfies_peek, satisfies_ite, satisfies_advance,
          satisfies_pure, hkind, hjoin, not_true_eq_false, true_implies, false_implies, and_true,
          Sum.elim_inl]
        rw [← State.tokens_advance] at hafter
        have hcall : Finds move (call (expression bound) bound callee)
            (fun a => a.moved move = .call lp f es) s₁.advance rest :=
          call_finds callee hcallee'
            (fun s₂ h₂ => hargs bound s₂ rp rest hrp (current_of_map h₂).2.2) hafter
        refine hcall.mono ?_ (fun _ h => h) id
        rintro e' s' ⟨he, hafter', hfaults'⟩
        exact hloop e' s' count he hafter' (hfaults'.trans hfaults)

theorem complete_binary {level m : Level} {t : Token} {l r : Expr} {ls rs : List Token}
    (hlevel : level.rank ≤ m.rank) (hleft : Complete move (.expr m l) ls)
    (hop : t.kind ∈ m.operators) (hright : Complete move (.expr m.inner r) rs) :
    Complete move (.expr level (.binary t t.literal l r)) (ls ++ t :: rs) := by
  intro floor bound count s rest P hfloor hinner hrest hs hloop
  have hm : m.rank < Level.unary.rank := (Level.rank_of_mem_operators hop).2
  have hjoin : floor < m := Level.lt_of_inner_le (Nat.le_trans hinner hlevel) hm
    (Level.rank_of_mem_operators hop).1
  have hlevel' : m ≠ .call := by
    rintro rfl
    simp at hm
  refine hleft floor bound count s (t :: (rs ++ rest)) P hfloor (Nat.le_trans hinner hlevel) ?_
    (by simpa using hs) ?_
  · rw [leadKind_cons]
    refine ⟨Nat.le_of_eq (by rw [Level.ofKind_of_mem_operators hop]), ?_⟩
    intro _ helse
    rw [helse] at hop
    cases m <;> simp [Level.operators] at hop
  · intro left s₁ count hleft' hafter hfaults
    cases count with
    | zero => trivial
    | succ count =>
        obtain ⟨hpeek, -⟩ := peek_of_map hafter
        have hkind : s₁.input.peek.kind = t.kind := by rw [State.peek_kind, hpeek]
        have hne : t.kind ≠ .lparen := by
          intro hparen
          rw [hparen] at hop
          cases m <;> simp [Level.operators] at hop
        rw [satisfies_iterate_succ]
        simp only [operatorRound, satisfies_bind, satisfies_peek, satisfies_ite, satisfies_advance,
          satisfies_pure, hkind, Level.ofKind_of_mem_operators hop, hjoin, hne, not_true_eq_false,
          not_false_eq_true, true_implies, false_implies, and_true, true_and, Sum.elim_inl]
        rw [← State.tokens_advance] at hafter
        have hfollow : Follows r.Dangling m (leadKind rest) :=
          ⟨Nat.le_trans hrest.1 hlevel, hrest.2⟩
        refine (binary_finds left hleft' hop (hright.findsExpr m hlevel' hfollow bound)
          hafter).mono ?_ (fun _ h => h) id
        rintro e' s' ⟨he, hafter', hfaults'⟩
        exact hloop e' s' count he hafter' (hfaults'.trans hfaults)

theorem follows_of_rparen {dangling : Prop} {rp : Token} (hrp : rp.kind = .rparen)
    (rest : List Token) : Follows dangling .lowest (leadKind (rp :: rest)) := by
  rw [leadKind_cons, hrp]
  exact ⟨Nat.le_refl _, by simp⟩

/-- After an argument there is a comma or the parenthesis. -/
theorem follows_of_moreArgs {dangling : Prop} {es : List Expr} {us : List Token}
    (h : Derives .strict (.moreArgs es) us) {rp : Token} (hrp : rp.kind = .rparen)
    (rest : List Token) : Follows dangling .lowest (leadKind (us ++ rp :: rest)) := by
  rcases h.moreArgs_leadKind with rfl | hcomma
  · exact follows_of_rparen hrp rest
  · rw [leadKind_append (by simp [hcomma]), hcomma]
    exact ⟨Nat.le_refl _, by simp⟩

theorem complete_noArgs : Complete move (.args []) [] := by
  intro bound s rp rest hrp h
  obtain ⟨hpeek, -, h₁⟩ := peek_of_map h
  simp only [Finds, args, satisfies_silent, satisfies_bind, satisfies_accept, satisfies_ite,
    satisfies_pure, hpeek.trans hrp]
  simpa [Expr.relabelEach] using h₁

theorem complete_args {e : Expr} {es : List Expr} {ts us : List Token}
    (first : Derives .strict (.expr .lowest e) ts) (hfirst : Complete move (.expr .lowest e) ts)
    (more : Derives .strict (.moreArgs es) us) (hmore : Complete move (.moreArgs es) us) :
    Complete move (.args (e :: es)) (ts ++ us) := by
  intro bound s rp rest hrp h
  have hstart : leadKind ts ∈ starters := first.startsWith
  have hlead : leadKind s.ahead = leadKind ts := by
    rw [leadKind_ahead_of_map h, List.append_assoc,
      leadKind_append (ne_eof_of_mem_starters hstart)]
  have hne : leadKind s.ahead ≠ .rparen := by
    intro hclose
    rw [← hlead, hclose] at hstart
    simp [starters] at hstart
  simp only [Finds, args, satisfies_silent, satisfies_bind, satisfies_accept, satisfies_ite,
    satisfies_advance, satisfies_pure, hne, Bool.false_eq_true, ne_eq, true_implies,
    false_implies, not_false_eq_true, true_and]
  have hfollow : Follows e.Dangling .lowest _ := follows_of_moreArgs more hrp rest
  refine (hfirst.findsExpr .lowest (by simp) hfollow bound s.advance
    (by simpa using h)).mono ?_ (fun _ h => h) id
  rintro arg s₁ ⟨rfl, hafter, hfaults⟩
  refine (hmore bound bound [arg] s₁ rp rest hrp hafter).mono ?_ (fun _ h => h) id
  rintro _ s' ⟨⟨args, rfl, rfl⟩, hafter', hfaults'⟩
  exact ⟨rfl, hafter', hfaults'.trans hfaults⟩

theorem complete_lastArg : Complete move (.moreArgs []) [] := by
  intro bound count done s rp rest hrp h
  cases count with
  | zero => trivial
  | succ count =>
      obtain ⟨hpeek, -, h₁⟩ := peek_of_map h
      rw [Finds, satisfies_iterate_succ]
      simp only [argRound, satisfies_bind, satisfies_accept, satisfies_ite, satisfies_expect,
        satisfies_pure, hpeek.trans hrp]
      simpa [Expr.relabelEach] using h₁

theorem complete_nextArg {comma : Token} {e : Expr} {es : List Expr} {ts us : List Token}
    (hcomma : comma.kind = .comma) (hnext : Complete move (.expr .lowest e) ts)
    (more : Derives .strict (.moreArgs es) us) (hmore : Complete move (.moreArgs es) us) :
    Complete move (.moreArgs (e :: es)) (comma :: (ts ++ us)) := by
  intro bound count done s rp rest hrp h
  cases count with
  | zero => trivial
  | succ count =>
      obtain ⟨hpeek, -, h₁⟩ := peek_of_map h
      rw [Finds, satisfies_iterate_succ]
      simp only [argRound, satisfies_bind, satisfies_accept, satisfies_ite, satisfies_advance,
        satisfies_expect, satisfies_pure, hpeek.trans hcomma, ne_eq, not_true_eq_false,
        true_implies, false_implies, and_true, Sum.elim_inl]
      have hfollow : Follows e.Dangling .lowest _ := follows_of_moreArgs more hrp rest
      refine (hnext.findsExpr .lowest (by simp) hfollow bound s.advance.advance
        (by simpa using h₁)).mono ?_ (fun _ h => h) id
      rintro arg s₁ ⟨rfl, hafter, hfaults⟩
      refine (hmore bound count (arg :: done) s₁ rp rest hrp hafter).mono ?_ (fun _ h => h) id
      rintro _ s' ⟨⟨args, rfl, rfl⟩, hafter', hfaults'⟩
      exact ⟨⟨arg :: args, by simp, rfl⟩, hafter', hfaults'.trans hfaults⟩

/-- A statement is read by the rule that its first token asks for. -/
theorem statement_of_kind {sub : ExprRule} {A : Stmt → Prop} {s : State} {rest : List Token}
    (hlet : leadKind s.tokens = .let → Finds move (binding sub) A s rest)
    (hreturn : leadKind s.tokens = .return → Finds move (returning sub) A s rest)
    (hother : leadKind s.tokens ≠ .let → leadKind s.tokens ≠ .return →
      Finds move (exprStmt sub) A s rest) :
    Finds move (statement sub) A s rest := by
  simp only [Finds, statement, satisfies_silent, satisfies_bind, satisfies_current]
  rw [← State.current_kind] at hlet hreturn hother
  cases h : s.input.current.kind with
  | «let» => exact hlet h
  | «return» => exact hreturn h
  | _ => exact hother (by simp [h]) (by simp [h])

theorem complete_exprStmt {t : Token} {v : Expr} {ts : List Token}
    (value : Derives .strict (.expr .lowest v) (t :: ts))
    (hvalue : Complete move (.expr .lowest v) (t :: ts)) :
    Complete move (.stmt (.expr t v)) (t :: ts) := by
  intro bound s rest rest' hfollow hrest h
  have hkind : leadKind s.tokens ∈ starters := by
    rw [(current_of_map h).1]
    exact value.startsWith
  refine statement_of_kind ?_ ?_ ?_
  · intro hlet
    simp [hlet, starters] at hkind
  · intro hreturn
    simp [hreturn, starters] at hkind
  · intro _ _
    exact exprStmt_finds (hvalue.findsExpr .lowest (by simp) hfollow bound) hrest h

theorem complete_noStmts : Complete move (.stmts []) [] := by
  intro bound count stop done s rest _ hstop _ h
  cases count with
  | zero => trivial
  | succ count =>
      rw [satisfies_iterate_succ]
      simp only [statementRound, satisfies_bind, satisfies_current, satisfies_ite, satisfies_pure,
        State.current_kind, leadKind_tokens_of_map h, List.nil_append, hstop]
      simpa [Stmt.relabelEach] using h

/-- A round of the loop over statements: whatever the loop is good for once it has the statement, it
is good for in front of it. -/
theorem iterate_statement {stmt : Stmt} {ts rest rest' : List Token}
    (first : Derives .strict (.stmt stmt) ts) (hfirst : Complete move (.stmt stmt) ts)
    (hfollow : Follows stmt.Dangling .lowest (leadKind rest)) (hafter : AfterSemicolon rest rest')
    {stop : Token.Kind → Bool} (hgo : ∀ kind ∈ stmtStarters, stop kind = false) {bound : Nat}
    (count : Nat) {done : List Stmt} {s : State}
    (hs : s.tokens.map (Token.moved move) = ts ++ rest) {P : List Stmt → State → Prop}
    (hnext : ∀ stmt' s' count', stmt'.moved move = stmt →
      s'.tokens.map (Token.moved move) = rest' → s'.faults = s.faults →
      (iterate (statementRound (expression bound) stop) count' (stmt' :: done) s').Satisfies P
        (fun _ => False) True) :
    (iterate (statementRound (expression bound) stop) count done s).Satisfies P (fun _ => False)
      True := by
  cases count with
  | zero => trivial
  | succ count =>
      have hstart : leadKind ts ∈ stmtStarters := first.startsWith
      have hlead : leadKind s.tokens = leadKind ts := by
        rw [leadKind_tokens_of_map hs, leadKind_append (ne_eof_of_mem_stmtStarters hstart)]
      rw [satisfies_iterate_succ]
      simp only [statementRound, satisfies_bind, satisfies_current, satisfies_ite, satisfies_pure,
        satisfies_attempt, satisfies_advance, State.current_kind, hlead, hgo _ hstart,
        Bool.false_eq_true, false_implies, not_false_eq_true, true_implies, true_and,
        Sum.elim_inl]
      refine (hfirst bound s rest rest' hfollow hafter hs).mono ?_ (fun _ h => h.elim) id
      rintro stmt' s₁ ⟨hstmt', hafter₁, hfaults₁⟩
      exact hnext stmt' s₁.advance count hstmt' (by simpa using hafter₁) hfaults₁

/-- A statement in front of others, where `us` is left of `vs` after its semicolon. -/
theorem complete_stmts_cons {stmt : Stmt} {ss : List Stmt} {ts us : List Token}
    (first : Derives .strict (.stmt stmt) ts) (hfirst : Complete move (.stmt stmt) ts)
    (hmore : Complete move (.stmts ss) us) {vs : List Token}
    (hvs : ∀ rest, leadKind rest = .rbrace ∨ leadKind rest = .eof →
      Follows stmt.Dangling .lowest (leadKind (vs ++ rest)) ∧
        AfterSemicolon (vs ++ rest) (us ++ rest)) :
    Complete move (.stmts (stmt :: ss)) (ts ++ vs) := by
  intro bound count stop done s rest hclose hstop hgo h
  obtain ⟨hfollow, hafter⟩ := hvs rest hclose
  rw [List.append_assoc] at h
  refine iterate_statement first hfirst hfollow hafter hgo count h ?_
  intro stmt' s₁ count' hstmt' h₁ hfaults₁
  refine (hmore bound count' stop (stmt' :: done) s₁ rest hclose hstop hgo h₁).mono ?_
    (fun _ h => h) id
  rintro _ s' ⟨⟨more, rfl, rfl⟩, hafter₂, hfaults₂⟩
  exact ⟨⟨stmt' :: more, by simp, congrArg (· :: _) hstmt'⟩, hafter₂, hfaults₂.trans hfaults₁⟩

theorem follows_lowest {dangling : Prop} {kind : Token.Kind} (helse : dangling → kind ≠ .else)
    (hjoin : kind ∉ joiners) : Follows dangling .lowest kind :=
  ⟨Nat.not_lt.mp fun h => hjoin (mem_joiners_iff.mpr h), helse⟩

theorem follows_semicolon {dangling : Prop} {t : Token} (ht : t.kind = .semicolon)
    {rest : List Token} : Follows dangling .lowest (leadKind (t :: rest)) := by
  rw [leadKind_cons, ht]
  exact ⟨Nat.le_refl _, by simp⟩

/-- What comes after a statement without a semicolon that is not the last of a list. -/
theorem Derives.follows_of_unclosed {dangling : Prop} {ss : List Stmt} {us : List Token}
    (more : Derives .strict (.stmts ss) us) (hne : us ≠ [])
    (hnext : leadKind us ≠ .semicolon ∧ leadKind us ∉ joiners) (rest : List Token) :
    Follows dangling .lowest (leadKind (us ++ rest)) ∧
      AfterSemicolon (us ++ rest) (us ++ rest) := by
  have hstart := more.stmts_leadKind.resolve_left hne
  have helse : leadKind us ≠ .else := by
    intro helse
    simp [helse, stmtStarters, starters] at hstart
  rw [AfterSemicolon, leadKind_append (ne_eof_of_mem_stmtStarters hstart)]
  exact ⟨follows_lowest (fun _ => helse) hnext.2, .inr ⟨rfl, hnext.1⟩⟩

theorem complete_closed {stmt : Stmt} {ss : List Stmt} {ts us : List Token} {semi : Token}
    (first : Derives .strict (.stmt stmt) ts) (hfirst : Complete move (.stmt stmt) ts)
    (hsemi : semi.kind = .semicolon) (hmore : Complete move (.stmts ss) us) :
    Complete move (.stmts (stmt :: ss)) (ts ++ semi :: us) :=
  complete_stmts_cons first hfirst hmore fun _ _ =>
    ⟨follows_semicolon hsemi, .inl ⟨semi, hsemi, rfl⟩⟩

theorem complete_unclosed {stmt : Stmt} {ss : List Stmt} {ts us : List Token}
    (first : Derives .strict (.stmt stmt) ts) (hfirst : Complete move (.stmt stmt) ts)
    (more : Derives .strict (.stmts ss) us) (hmore : Complete move (.stmts ss) us)
    (hnext : leadKind us ≠ .semicolon ∧ leadKind us ∉ joiners) :
    Complete move (.stmts (stmt :: ss)) (ts ++ us) := by
  refine complete_stmts_cons first hfirst hmore fun rest hclose => ?_
  -- what comes next is a statement, or else a brace or the end of the source
  by_cases hus : us = []
  · rw [hus, List.nil_append]
    refine ⟨?_, .inr ⟨rfl, ?_⟩⟩
    · rcases hclose with hclose | hclose <;> rw [hclose] <;> exact ⟨Nat.le_refl _, by simp⟩
    · rcases hclose with hclose | hclose <;> simp [hclose]
  · exact more.follows_of_unclosed hus hnext rest

theorem complete_block {lb rb : Token} {ss : List Stmt} {ts : List Token}
    (hlb : lb.kind = .lbrace) (hbody : Complete move (.stmts ss) ts) (hrb : rb.kind = .rbrace) :
    Complete move (.block (.mk lb ss)) (lb :: (ts ++ [rb])) := by
  refine ⟨hlb, fun bound rest => block_finds fun s hs => ?_⟩
  have hstop : leadKind (rb :: rest) = .rbrace := hrb
  refine (hbody bound bound closesBlock [] s (rb :: rest) (.inl hstop) (by rw [hstop]; rfl)
    (by decide) hs).mono ?_ (fun _ h => h) id
  rintro _ s' ⟨⟨more, rfl, rfl⟩, hafter, hfaults⟩
  exact ⟨rfl, hafter, hfaults⟩

theorem Complete.leadKind_block {b : Block} {ts : List Token} (h : Complete move (.block b) ts)
    (rest : List Token) : leadKind (ts ++ rest) = .lbrace := by
  rw [leadKind_append (by simp [h.1]), h.1]

end Complete

/-- What has a derivation is read. -/
theorem Derives.complete {ph : Phrase} {ts : List Token} (h : Derives .strict ph ts)
    (move : Position → Position) : Complete move ph ts := by
  induction h with
  | ident ht =>
      refine complete_of_atom (fun t => .ident ⟨t, t.literal⟩) (fun _ => rfl)
        fun bound s P hkind hP => ?_
      simpa only [operand, satisfies_bind, satisfies_current, satisfies_silent, satisfies_pure,
        hkind.trans ht] using hP
  | int ht hvalue =>
      refine complete_of_operand fun bound s rest _ hs => ?_
      have hkind := (current_kind_of_map hs).trans ht
      simp only [Finds, operand, satisfies_bind, satisfies_current, hkind]
      exact integer_finds hvalue hs
  | yes ht =>
      refine complete_of_atom (fun t => .bool t true) (fun _ => rfl) fun bound s P hkind hP => ?_
      simpa only [operand, satisfies_bind, satisfies_current, satisfies_silent, satisfies_pure,
        hkind.trans ht] using hP
  | no ht =>
      refine complete_of_atom (fun t => .bool t false) (fun _ => rfl) fun bound s P hkind hP => ?_
      simpa only [operand, satisfies_bind, satisfies_current, satisfies_silent, satisfies_pure,
        hkind.trans ht] using hP
  | @group level lp rp e ts hlp inside hrp ih =>
      refine complete_of_operand fun bound s rest _ hs => ?_
      have hkind := (current_kind_of_map hs).trans hlp
      simp only [Finds, operand, satisfies_bind, satisfies_current, hkind]
      have hfollow : Follows e.Dangling .lowest _ := follows_of_rparen hrp rest
      exact group_finds hrp (ih.findsExpr .lowest (by simp) hfollow bound) (by simpa using hs)
  | @cond level t lp rp c b cs bs ht hlp condition hrp consequence ihc ihb =>
      refine complete_of_operand fun bound s rest hrest hs => ?_
      have hkind := (current_kind_of_map hs).trans ht
      simp only [Finds, operand, satisfies_bind, satisfies_current, hkind]
      have hfollow : Follows c.Dangling .lowest _ := follows_of_rparen hrp (bs ++ rest)
      have helse : FindsElse move (expression bound) bound none rest rest := ⟨rfl, hrest.2 trivial⟩
      exact cond_finds hlp hrp (ihc.findsExpr .lowest (by simp) hfollow bound)
        (ihb.leadKind_block rest) (ihb.2 bound rest) helse (by simpa using hs)
  | @condElse level t lp rp el c b b' cs bs bs' ht hlp condition hrp consequence hel alternative
      ihc ihb ihb' =>
      refine complete_of_operand fun bound s rest hrest hs => ?_
      have hkind := (current_kind_of_map hs).trans ht
      simp only [Finds, operand, satisfies_bind, satisfies_current, hkind]
      have hfollow : Follows c.Dangling .lowest _ :=
        follows_of_rparen hrp (bs ++ el :: (bs' ++ rest))
      have helse : FindsElse move (expression bound) bound (some b') (el :: (bs' ++ rest)) rest :=
        ⟨el, bs', hel, ihb'.leadKind_block rest, rfl, ihb'.2 bound rest⟩
      exact cond_finds hlp hrp (ihc.findsExpr .lowest (by simp) hfollow bound)
        (ihb.leadKind_block _) (ihb.2 bound _) helse (by simpa using hs)
  | function ht hlp params hrp body ih =>
      refine complete_of_operand fun bound s rest _ hs => ?_
      have hkind := (current_kind_of_map hs).trans ht
      simp only [Finds, operand, satisfies_bind, satisfies_current, hkind]
      exact function_finds hlp params hrp (ih.leadKind_block rest) (ih.2 bound rest)
        (by simpa using hs)
  | call hlevel callee hlp args hrp ihf iha => exact complete_call hlevel ihf hlp iha hrp
  | @unary level t r ts hlevel ht right ih =>
      refine complete_of_operand fun bound s rest hrest hs => ?_
      have hfollow : Follows r.Dangling .unary (leadKind rest) :=
        ⟨Nat.le_trans hrest.1 hlevel, hrest.2⟩
      have hright := unary_finds (ih.findsExpr .unary (by simp) hfollow bound) (by simpa using hs)
      have hkind := current_kind_of_map hs
      simp only [signs, List.mem_cons, List.not_mem_nil, or_false] at ht
      rcases ht with ht | ht <;>
        simpa only [Finds, operand, satisfies_bind, satisfies_current, hkind, ht] using hright
  | binary hlevel left ht right ihl ihr => exact complete_binary hlevel ihl ht ihr
  | noArgs => exact complete_noArgs
  | args first more ihe ihes => exact complete_args first ihe more ihes
  | lastArg => exact complete_lastArg
  | nextArg hcomma next more ihe ihes => exact complete_nextArg hcomma ihe more ihes
  | block hlb body hrb ih => exact complete_block hlb ih hrb
  | bind ht hname heq value ih =>
      intro bound s rest rest' hfollow hrest hs
      have hkind := (current_of_map hs).1.trans ht
      refine statement_of_kind (fun _ => ?_) (by simp [hkind]) (by simp [hkind])
      exact binding_finds hname heq (ih.findsExpr .lowest (by simp) hfollow bound) hrest hs
  | ret ht value ih =>
      intro bound s rest rest' hfollow hrest hs
      have hkind := (current_of_map hs).1.trans ht
      refine statement_of_kind (by simp [hkind]) (fun _ => ?_) (by simp [hkind])
      exact returning_finds (ih.findsExpr .lowest (by simp) hfollow bound) hrest hs
  | exprStmt value ih => exact complete_exprStmt value ih
  | noStmts => exact complete_noStmts
  | closed first hsemi more ihs ihss => exact complete_closed first ihs hsemi ihss
  | unclosed first more hnext ihs ihss => exact complete_unclosed first ihs more ihss hnext
  | openBlock hmode => cases hmode
  | dropped hmode => cases hmode

/-- A stream of tokens that has a derivation is read without a fault as the program of the
derivation, whatever the places of its tokens are. -/
theorem parse_of_derives {move : Position → Position} {p : Program} {input : Token.Stream}
    (h : Derives .strict (.stmts p.stmts) (input.items.map (Token.moved move))) (tracing : Bool) :
    (parse input tracing).faults = [] ∧
      (parse input tracing).program.relabel (Token.moved move) (Token.moved move) = p := by
  obtain ⟨q, s, hfound, hparse⟩ := parse_eq input tracing
  have hread : (program (boundFor input) (.ofStream tracing input)).Satisfies
      (fun q s' => q.relabel (Token.moved move) (Token.moved move) = p ∧ s'.faults = [])
      (fun _ => False) True := by
    simp only [program, satisfies_silent, satisfies_bind, satisfies_pure]
    refine (h.complete move _ _ (fun kind => kind = .eof) [] _ [] (.inr rfl) rfl (by decide)
      (by simp [State.tokens, State.ofStream])).mono ?_ (fun _ h => h) id
    rintro _ s' ⟨⟨stmts, rfl, hstmts⟩, -, hfaults⟩
    exact ⟨by simp [Program.relabel, hstmts], hfaults⟩
  rw [hfound] at hread
  obtain ⟨hq, hfaults⟩ := hread
  simp [hparse, hq, hfaults]

/-- A stream of tokens that has a derivation is read as what it is derived as. -/
theorem Derives.parse_items {ss : List Stmt} {input : Token.Stream}
    (h : Derives .strict (.stmts ss) input.items) (tracing : Bool) :
    (parse input tracing).faults = [] ∧ (parse input tracing).program = ⟨ss⟩ := by
  have hmoved : Derives .strict (.stmts (Program.mk ss).stmts)
      (input.items.map (Token.moved id)) := by
    rwa [Token.moved_id, List.map_id]
  obtain ⟨hfaults, hprogram⟩ := parse_of_derives hmoved tracing
  rw [Token.moved_id, Program.relabel, Stmt.relabelEach_id] at hprogram
  exact ⟨hfaults, hprogram⟩

end Grammar

end Monkey
