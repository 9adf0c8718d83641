import Monkey.Proofs.Grammar.Halting
import Monkey.Proofs.Tree.Relabel

/-!
# Two readings side by side

What is read depends on the kinds and the texts of the tokens and on nothing else. Two states are
alike if the same tokens are left in them, but for their places, and the same faults have been
recorded; the places are compared after `move` on the one side and `move'` on the other. Two rules
are parallel if, from states that are alike, both find the same but for the places, or both fail,
and leave states that are alike. Where one of them is cut off nothing is said, so that their
bounds need not be the same.

Places of end tokens do not correspond. As in a tree there are none of these, it is enough to know
of some rules which kind of token they start with.
-/

namespace Monkey.Grammar

open Rule

structure State.Alike (move move' : Position → Position) (s t : State) : Prop where
  tokens : s.tokens.map (Token.moved move) = t.tokens.map (Token.moved move')
  faults : s.faults = t.faults

/-- What the current tokens of two states have in common that are alike. -/
structure SameToken (move move' : Position → Position) (a b : Token) : Prop where
  kind : a.kind = b.kind
  literal : a.literal = b.literal
  moved : a.kind ≠ .eof → a.moved move = b.moved move'

/-- Both outcomes are of the same sort and the states after them are alike, or one of the two rules
was cut off. -/
inductive Outcome.Beside {α β : Type} (move move' : Position → Position) (R : α → β → Prop) :
    Outcome α → Outcome β → Prop where
  | found {a : α} {b : β} {s t : State} (h : R a b) (hst : s.Alike move move' t) :
      Beside move move' R (found a s) (found b t)
  | failed {s t : State} (hst : s.Alike move move' t) : Beside move move' R (failed s) (failed t)
  | cutLeft (o : Outcome β) : Beside move move' R exhausted o
  | cutRight (o : Outcome α) : Beside move move' R o exhausted

def Parallel {α β : Type} (move move' : Position → Position) (lead : Token.Kind → Prop)
    (R : α → β → Prop) (x : Rule α) (y : Rule β) : Prop :=
  ∀ s t, s.Alike move move' t → lead (leadKind s.tokens) → (x s).Beside move move' R (y t)

variable {move move' : Position → Position}

namespace State.Alike

variable {s t : State}

theorem ahead (h : s.Alike move move' t) :
    s.ahead.map (Token.moved move) = t.ahead.map (Token.moved move') := by
  simp only [State.ahead, List.map_tail, h.tokens]

theorem advance (h : s.Alike move move' t) : s.advance.Alike move move' t.advance :=
  ⟨by simpa using h.ahead, h.faults⟩

theorem report (h : s.Alike move move' t) (f : Fault) :
    (s.report f).Alike move move' (t.report f) :=
  ⟨h.tokens, congrArg (f :: ·) h.faults⟩

theorem enter (h : s.Alike move move' t) (name : RuleName) :
    (s.enter name).Alike move move' (t.enter name) :=
  ⟨by simpa using h.tokens, by simpa using h.faults⟩

theorem leave (h : s.Alike move move' t) (name : RuleName) :
    (s.leave name).Alike move move' (t.leave name) :=
  ⟨by simpa using h.tokens, by simpa using h.faults⟩

theorem current (h : s.Alike move move' t) :
    SameToken move move' s.input.current t.input.current := by
  have htokens := h.tokens
  cases hs : s.tokens with
  | nil =>
      rw [hs] at htokens
      have ht : t.tokens = [] := by simpa using htokens.symm
      unfold State.tokens at hs ht
      have hcurrent : ∀ input : Token.Stream, input.items = [] →
          input.current = input.endToken := by
        intro input hitems
        simp [Token.Stream.current, hitems]
      rw [hcurrent _ hs, hcurrent _ ht]
      exact ⟨rfl, rfl, fun hne => absurd rfl hne⟩
  | cons a as =>
      rw [hs, List.map_cons] at htokens
      obtain ⟨b, bs, ht, hb, -⟩ := List.map_eq_cons_iff.mp htokens.symm
      rw [current_of_tokens hs, current_of_tokens ht]
      exact ⟨(congrArg Token.kind hb).symm, (congrArg Token.literal hb).symm, fun _ => hb.symm⟩

theorem peek (h : s.Alike move move' t) : SameToken move move' s.input.peek t.input.peek :=
  h.advance.current

end State.Alike

section Combinators

variable {α β γ δ : Type} {lead : Token.Kind → Prop} {R : α → β → Prop} {S : γ → δ → Prop}
  {x : Rule α} {y : Rule β}

theorem Parallel.mono {lead' : Token.Kind → Prop} (h : Parallel move move' lead R x y)
    (hlead : ∀ kind, lead' kind → lead kind) : Parallel move move' lead' R x y :=
  fun s t hst hkind => h s t hst (hlead _ hkind)

theorem Parallel.weaken (h : Parallel move move' anyKind R x y) : Parallel move move' lead R x y :=
  h.mono fun _ _ => trivial

theorem parallel_pure {a : α} {b : β} (h : R a b) : Parallel move move' lead R (pure a) (pure b) :=
  fun _ _ hst _ => .found h hst

theorem parallel_fail (f : Fault) : Parallel move move' lead R (fail f) (fail f) :=
  fun _ _ hst _ => .failed (hst.report f)

theorem parallel_bind {f : α → Rule γ} {g : β → Rule δ} (hxy : Parallel move move' lead R x y)
    (hfg : ∀ a b, R a b → Parallel move move' anyKind S (f a) (g b)) :
    Parallel move move' lead S (x >>= f) (y >>= g) := by
  intro s t hst hkind
  have h := hxy s t hst hkind
  change (Rule.bind x f s).Beside move move' S (Rule.bind y g t)
  rw [run, run]
  generalize x s = o, y t = o' at h
  cases h with
  | found h hst' => exact hfg _ _ h _ _ hst' trivial
  | failed hst' => exact .failed hst'
  | cutLeft => exact .cutLeft _
  | cutRight => exact .cutRight _

theorem parallel_current {f : Token → Rule α} {g : Token → Rule β}
    (hfg : ∀ a b, lead a.kind → SameToken move move' a b →
      Parallel move move' (· = a.kind) R (f a) (g b)) :
    Parallel move move' lead R (current >>= f) (current >>= g) := by
  intro s t hst hkind
  rw [← State.current_kind] at hkind
  exact hfg _ _ hkind hst.current s t hst (State.current_kind s).symm

theorem parallel_peek {f : Token → Rule α} {g : Token → Rule β}
    (hfg : ∀ a b, SameToken move move' a b → ∀ s t, s.Alike move move' t →
      leadKind s.ahead = a.kind → (f a s).Beside move move' R (g b t)) :
    Parallel move move' lead R (peek >>= f) (peek >>= g) :=
  fun s t hst _ => hfg _ _ hst.peek s t hst (State.peek_kind s).symm

theorem parallel_advance {f : Unit → Rule α} {g : Unit → Rule β}
    (hfg : Parallel move move' anyKind R (f ()) (g ())) :
    Parallel move move' lead R (advance >>= f) (advance >>= g) :=
  fun s t hst _ => hfg s.advance t.advance hst.advance trivial

theorem expect_eq (want : Token.Kind) (s : State) :
    expect want s = if s.input.peek.kind = want then .found s.input.peek s.advance
      else .failed (s.report (.unexpected want s.input.peek.kind)) := by
  change (if s.input.peek.kind = want then _ else _ : Rule Token) s = _
  split <;> rfl

theorem accept_eq (kind : Token.Kind) (s : State) :
    accept kind s = if s.input.peek.kind = kind then .found true s.advance else .found false s := by
  change (if s.input.peek.kind = kind then _ else _ : Rule Bool) s = _
  split <;> rfl

theorem parallel_expect {want : Token.Kind} {f : Token → Rule α} {g : Token → Rule β}
    (hfg : ∀ a b, a.kind = want → SameToken move move' a b →
      Parallel move move' (· = want) R (f a) (g b)) :
    Parallel move move' lead R (expect want >>= f) (expect want >>= g) := by
  intro s t hst _
  change (Rule.bind (expect want) f s).Beside move move' R (Rule.bind (expect want) g t)
  rw [run, run]
  rw [expect_eq, expect_eq, ← hst.peek.kind]
  by_cases hkind : s.input.peek.kind = want
  · rw [if_pos hkind, if_pos hkind]
    refine hfg _ _ hkind hst.peek _ _ hst.advance ?_
    rw [State.tokens_advance, ← State.peek_kind, hkind]
  · rw [if_neg hkind, if_neg hkind]
    exact .failed (hst.report _)

theorem parallel_accept (kind : Token.Kind) {f : Bool → Rule α} {g : Bool → Rule β}
    (hyes : Parallel move move' (· = kind) R (f true) (g true))
    (hno : Parallel move move' lead R (f false) (g false)) :
    Parallel move move' lead R (accept kind >>= f) (accept kind >>= g) := by
  intro s t hst hlead
  change (Rule.bind (accept kind) f s).Beside move move' R (Rule.bind (accept kind) g t)
  rw [run, run]
  rw [accept_eq, accept_eq, ← hst.peek.kind]
  by_cases hkind : s.input.peek.kind = kind
  · rw [if_pos hkind, if_pos hkind]
    refine hyes _ _ hst.advance ?_
    rw [State.tokens_advance, ← State.peek_kind, hkind]
  · rw [if_neg hkind, if_neg hkind]
    exact hno s t hst hlead

theorem parallel_traced (name : RuleName) (hxy : Parallel move move' lead R x y) :
    Parallel move move' lead R (traced name x) (traced name y) := by
  intro s t hst hkind
  have h := hxy _ _ (hst.enter name) (by rwa [State.tokens_enter])
  rw [run, run]
  generalize x (s.enter name) = o, y (t.enter name) = o' at h
  cases h with
  | found h hst' => exact .found h (hst'.leave name)
  | failed hst' => exact .failed (hst'.leave name)
  | cutLeft => exact .cutLeft _
  | cutRight => exact .cutRight _

theorem parallel_silent (hxy : Parallel move move' lead R x y) :
    Parallel move move' lead R (silent x) (silent y) := hxy

theorem parallel_attempt {x y : Rule Stmt} {R : Stmt → Stmt → Prop}
    (hxy : Parallel move move' lead R x y) :
    Parallel move move' lead (Option.Rel R) (attempt x) (attempt y) := by
  intro s t hst hkind
  have h := hxy s t hst hkind
  rw [run, run]
  generalize x s = o, y t = o' at h
  cases h with
  | found h hst' => exact .found (.some h) hst'
  | failed hst' => exact .found .none hst'
  | cutLeft => exact .cutLeft _
  | cutRight => exact .cutRight _

theorem parallel_iterate {round : α → Rule (α ⊕ γ)} {round' : β → Rule (β ⊕ δ)}
    (hround : ∀ a b, R a b → Parallel move move' anyKind (Sum.LiftRel R S) (round a) (round' b))
    (bound bound' : Nat) {a : α} {b : β} (hab : R a b) :
    Parallel move move' anyKind S (iterate round bound a) (iterate round' bound' b) := by
  induction bound generalizing bound' a b with
  | zero => exact fun _ _ _ _ => .cutLeft _
  | succ bound ih =>
      cases bound' with
      | zero => exact fun _ _ _ _ => .cutRight _
      | succ bound' =>
          refine parallel_bind (hround a b hab) fun x y hxy => ?_
          cases hxy with
          | inl hab' => exact ih bound' hab'
          | inr h => exact parallel_pure h

end Combinators

section Rules

/-- Two expressions that are the same but for places. -/
def SameExpr (move move' : Position → Position) (e e' : Expr) : Prop :=
  e.moved move = e'.moved move'

def SameStmt (move move' : Position → Position) (s s' : Stmt) : Prop :=
  s.moved move = s'.moved move'

def SameBlock (move move' : Position → Position) (b b' : Block) : Prop :=
  b.moved move = b'.moved move'

def SameExprs (move move' : Position → Position) (es es' : List Expr) : Prop :=
  es.map (Expr.moved move) = es'.map (Expr.moved move')

def SameIdents (move move' : Position → Position) (ids ids' : List Ident) : Prop :=
  ids.map (Ident.relabel (Token.moved move)) = ids'.map (Ident.relabel (Token.moved move'))

/-- The statements are the same but for places, and others come before those on the right. -/
def StmtsAfter (move move' : Position → Position) (before ss ss' : List Stmt) : Prop :=
  ss'.map (Stmt.moved move') = before ++ ss.map (Stmt.moved move)

variable {sub sub' : ExprRule} {bound bound' : Nat}

/-- The rules for expressions are parallel at every level. -/
def ParallelExprs (move move' : Position → Position) (sub sub' : ExprRule) : Prop :=
  ∀ level, Parallel move move' anyKind (SameExpr move move') (sub level) (sub' level)

theorem sameIdent {name name' : Token} (hkind : name.kind = .ident)
    (h : SameToken move move' name name') :
    Ident.relabel (Token.moved move) ⟨name, name.literal⟩ =
      Ident.relabel (Token.moved move') ⟨name', name'.literal⟩ :=
  congrArg₂ Ident.mk (h.moved (by simp [hkind])) h.literal

theorem parallel_end {lead : Token.Kind → Prop} {stmt stmt' : Stmt}
    (h : SameStmt move move' stmt stmt') :
    Parallel move move' lead (SameStmt move move') (accept .semicolon >>= fun _ => pure stmt)
      (accept .semicolon >>= fun _ => pure stmt') :=
  parallel_accept _ (parallel_pure h) (parallel_pure h)

theorem parallel_binding (hsub : ParallelExprs move move' sub sub') :
    Parallel move move' (· = .let) (SameStmt move move') (binding sub) (binding sub') := by
  refine parallel_traced _ <| parallel_current fun token token' hkind htoken => ?_
  refine parallel_expect fun name name' hname hsame => parallel_expect fun _ _ _ _ => ?_
  refine parallel_advance <| parallel_bind (hsub _) fun value value' hvalue => parallel_end ?_
  have htoken' := htoken.moved (by simp [hkind])
  have hid := sameIdent hname hsame
  unfold SameExpr Expr.moved at hvalue
  change Stmt.bind _ _ _ = Stmt.bind _ _ _
  rw [htoken', hid, hvalue]

theorem parallel_returning (hsub : ParallelExprs move move' sub sub') :
    Parallel move move' (· = .return) (SameStmt move move') (returning sub) (returning sub') := by
  refine parallel_traced _ <| parallel_current fun token token' hkind htoken => ?_
  refine parallel_advance <| parallel_bind (hsub _) fun value value' hvalue => parallel_end ?_
  have htoken' := htoken.moved (by simp [hkind])
  exact congrArg₂ Stmt.ret htoken' hvalue

theorem parallel_exprStmt (hsub : ParallelExprs move move' sub sub') :
    Parallel move move' (· ≠ .eof) (SameStmt move move') (exprStmt sub) (exprStmt sub') := by
  refine parallel_traced _ <| parallel_current fun token token' hkind htoken => ?_
  refine parallel_bind (hsub _).weaken fun value value' hvalue => parallel_end ?_
  have htoken' := htoken.moved hkind
  exact congrArg₂ Stmt.expr htoken' hvalue

theorem parallel_statement (hsub : ParallelExprs move move' sub sub') :
    Parallel move move' (· ≠ .eof) (SameStmt move move') (statement sub) (statement sub') := by
  refine parallel_silent <| parallel_current fun token token' hkind htoken => ?_
  rw [← htoken.kind]
  cases h : token.kind with
  | «let» => exact parallel_binding hsub
  | «return» => exact parallel_returning hsub
  | _ => exact (parallel_exprStmt hsub).mono (by rintro _ rfl; exact h ▸ hkind)

/-- One list of statements and another one, before which others have been read. -/
theorem parallel_statementLoop (hsub : ParallelExprs move move' sub sub') {stop : Token.Kind → Bool}
    (hstop : stop .eof = true) (before : List Stmt) {done done' : List Stmt}
    (hdone : StmtsAfter move move' before done.reverse done'.reverse) :
    Parallel move move' anyKind (StmtsAfter move move' before)
      (iterate (statementRound sub stop) bound done)
      (iterate (statementRound sub' stop) bound' done') := by
  refine parallel_iterate
    (R := fun done done' => StmtsAfter move move' before done.reverse done'.reverse)
    (fun done done' hdone => ?_) bound bound' hdone
  refine parallel_current fun token token' _ htoken => ?_
  rw [← htoken.kind]
  split
  · exact parallel_pure (.inr hdone)
  · next hgo =>
      have hne : token.kind ≠ .eof := fun heof => hgo (heof ▸ hstop)
      have hattempt := parallel_attempt (parallel_statement hsub)
      refine parallel_bind (hattempt.mono ?_) fun stmt? stmt'? h => ?_
      · rintro _ rfl
        exact hne
      · refine parallel_advance (parallel_pure (.inl ?_))
        cases h with
        | none => exact hdone
        | some h =>
            unfold StmtsAfter at hdone ⊢
            simp only [List.reverse_cons, List.map_append, List.map_cons, List.map_nil, hdone,
              List.append_assoc]
            rw [show Stmt.moved move _ = Stmt.moved move' _ from h]

theorem parallel_block (hsub : ParallelExprs move move' sub sub') :
    Parallel move move' (· = .lbrace) (SameBlock move move') (block sub bound)
      (block sub' bound') := by
  refine parallel_traced _ <| parallel_current fun token token' hkind htoken => parallel_advance ?_
  refine parallel_bind (parallel_statementLoop hsub rfl [] rfl) fun stmts stmts' hstmts => ?_
  refine parallel_pure ?_
  have hstmts' : Stmt.relabelEach (Token.moved move) (Token.moved move) stmts =
      Stmt.relabelEach (Token.moved move') (Token.moved move') stmts' := by
    rw [Stmt.relabelEach_eq_map, Stmt.relabelEach_eq_map]
    exact hstmts.symm
  exact congrArg₂ Block.mk (htoken.moved (by simp [hkind])) hstmts'

theorem parallel_integer :
    Parallel move move' (· = .int) (SameExpr move move') integer integer := by
  refine parallel_traced _ <| parallel_current fun token token' hkind htoken => ?_
  rw [htoken.literal]
  cases Text.Decimal.int64? token'.literal with
  | none => exact parallel_fail _
  | some value => exact parallel_pure (congrArg (Expr.int · value) (htoken.moved (by simp [hkind])))

theorem parallel_unary (hsub : ParallelExprs move move' sub sub') :
    Parallel move move' (· ≠ .eof) (SameExpr move move') (unary sub) (unary sub') := by
  refine parallel_traced _ <| parallel_current fun token token' hkind htoken => parallel_advance ?_
  refine parallel_bind (hsub _) fun right right' hright => parallel_pure ?_
  rw [htoken.literal]
  exact congrArg₂ (Expr.unary · token'.literal ·) (htoken.moved hkind) hright

theorem parallel_group (hsub : ParallelExprs move move' sub sub') :
    Parallel move move' anyKind (SameExpr move move') (group sub) (group sub') := by
  apply parallel_silent
  refine parallel_advance <| parallel_bind (hsub _) fun inner inner' hinner => ?_
  exact parallel_expect fun _ _ _ _ => parallel_pure hinner

theorem parallel_cond (hsub : ParallelExprs move move' sub sub') :
    Parallel move move' (· = .if) (SameExpr move move') (cond sub bound) (cond sub' bound') := by
  refine parallel_traced _ <| parallel_current fun token token' hkind htoken => ?_
  have htoken' := htoken.moved (by simp [hkind])
  refine parallel_expect fun _ _ _ _ => parallel_advance ?_
  refine parallel_bind (hsub _) fun condition condition' hcondition => ?_
  refine parallel_expect fun _ _ _ _ => parallel_expect fun _ _ _ _ => ?_
  refine parallel_bind (parallel_block hsub) fun consequence consequence' hconsequence => ?_
  have hstart : ∀ alternative : Option Block,
      Expr.cond (token.moved move) (condition.moved move) (consequence.moved move) alternative =
        Expr.cond (token'.moved move') (condition'.moved move') (consequence'.moved move')
          alternative := by
    intro alternative
    rw [htoken', show condition.moved move = _ from hcondition,
      show consequence.moved move = _ from hconsequence]
  refine parallel_accept _ ?_ (parallel_pure (hstart none))
  refine parallel_expect fun _ _ _ _ => ?_
  refine parallel_bind (parallel_block hsub) fun alternative alternative' halternative => ?_
  refine parallel_pure ((hstart (some (alternative.moved move))).trans ?_)
  exact congrArg (fun b => Expr.cond _ _ _ (some b)) halternative

theorem parallel_params :
    Parallel move move' anyKind (SameIdents move move') (params bound) (params bound') := by
  refine parallel_silent <| parallel_accept _ (parallel_pure rfl) ?_
  refine parallel_expect fun name name' hname hsame => ?_
  refine (parallel_iterate (R := SameIdents move move') (fun done done' hdone => ?_) bound bound'
    ?_).weaken
  · refine parallel_accept _ ?_ ?_
    · refine parallel_expect fun name name' hname hsame => parallel_pure (.inl ?_)
      exact congrArg₂ List.cons (sameIdent hname hsame) hdone
    · refine parallel_expect fun _ _ _ _ => parallel_pure (.inr ?_)
      simpa [SameIdents] using hdone
  · exact congrArg (fun id => [id]) (sameIdent hname hsame)

theorem parallel_function (hsub : ParallelExprs move move' sub sub') :
    Parallel move move' (· = .function) (SameExpr move move') (function sub bound)
      (function sub' bound') := by
  refine parallel_traced _ <| parallel_current fun token token' hkind htoken => ?_
  have htoken' := htoken.moved (by simp [hkind])
  refine parallel_expect fun _ _ _ _ => ?_
  refine parallel_bind parallel_params.weaken fun ids ids' hids => ?_
  refine parallel_expect fun _ _ _ _ => ?_
  refine parallel_bind (parallel_block hsub) fun body body' hbody => parallel_pure ?_
  unfold SameIdents at hids
  unfold SameBlock Block.moved at hbody
  change Expr.function _ _ _ = Expr.function _ _ _
  rw [htoken', hids, hbody]

theorem parallel_args (hsub : ParallelExprs move move' sub sub') :
    Parallel move move' anyKind (SameExprs move move') (args sub bound) (args sub' bound') := by
  refine parallel_silent <| parallel_accept _ (parallel_pure rfl) ?_
  refine parallel_advance <| parallel_bind (hsub _) fun arg arg' harg => ?_
  refine parallel_iterate (R := SameExprs move move') (fun done done' hdone => ?_) bound bound' ?_
  · refine parallel_accept _ ?_ ?_
    · refine parallel_advance <| parallel_bind (hsub _) fun arg arg' harg => parallel_pure (.inl ?_)
      exact congrArg₂ List.cons harg hdone
    · refine parallel_expect fun _ _ _ _ => parallel_pure (.inr ?_)
      simpa [SameExprs] using hdone
  · exact congrArg (fun e => [e]) harg

theorem parallel_call (hsub : ParallelExprs move move' sub sub') {callee callee' : Expr}
    (hcallee : SameExpr move move' callee callee') :
    Parallel move move' (· = .lparen) (SameExpr move move') (call sub bound callee)
      (call sub' bound' callee') := by
  refine parallel_traced _ <| parallel_current fun token token' hkind htoken => ?_
  have htoken' := htoken.moved (by simp [hkind])
  refine parallel_bind (parallel_args hsub).weaken fun list list' hlist => parallel_pure ?_
  unfold SameExpr Expr.moved at hcallee
  unfold SameExprs Expr.moved at hlist
  change Expr.call _ _ _ = Expr.call _ _ _
  rw [htoken', Expr.relabelEach_eq_map, Expr.relabelEach_eq_map, hcallee, hlist]

theorem parallel_binary (hsub : ParallelExprs move move' sub sub') {left left' : Expr}
    (hleft : SameExpr move move' left left') :
    Parallel move move' (· ≠ .eof) (SameExpr move move') (binary sub left) (binary sub' left') := by
  refine parallel_traced _ <| parallel_current fun token token' hkind htoken => parallel_advance ?_
  rw [← htoken.kind]
  refine parallel_bind (hsub _) fun right right' hright => parallel_pure ?_
  unfold SameExpr Expr.moved at hleft hright
  change Expr.binary _ _ _ _ = Expr.binary _ _ _ _
  rw [htoken.moved hkind, htoken.literal, hleft, hright]

theorem parallel_operand (hsub : ParallelExprs move move' sub sub') :
    Parallel move move' anyKind (SameExpr move move') (operand sub bound)
      (operand sub' bound') := by
  refine parallel_current fun token token' _ htoken => ?_
  rw [← htoken.kind]
  have hmoved := htoken.moved
  cases h : token.kind with
  | ident => exact parallel_silent <| parallel_pure (congrArg Expr.ident (sameIdent h htoken))
  | int => exact parallel_integer
  | bang => exact (parallel_unary hsub).mono (by rintro _ rfl; decide)
  | minus => exact (parallel_unary hsub).mono (by rintro _ rfl; decide)
  | «true» =>
      exact parallel_silent <| parallel_pure (congrArg (Expr.bool · true) (hmoved (by simp [h])))
  | «false» =>
      exact parallel_silent <| parallel_pure (congrArg (Expr.bool · false) (hmoved (by simp [h])))
  | lparen => exact (parallel_group hsub).weaken
  | «if» => exact parallel_cond hsub
  | function => exact parallel_function hsub
  | _ => exact parallel_fail _

theorem parallel_operatorRound (hsub : ParallelExprs move move' sub sub') (level : Level)
    {left left' : Expr} (hleft : SameExpr move move' left left') :
    Parallel move move' anyKind (Sum.LiftRel (SameExpr move move') (SameExpr move move'))
      (operatorRound sub bound level left) (operatorRound sub' bound' level left') := by
  refine parallel_peek fun next next' hnext s t hst hahead => ?_
  rw [← hnext.kind]
  split
  · next hlevel =>
      have hlead : leadKind s.advance.tokens = next.kind := by rw [State.tokens_advance, hahead]
      have hlonger : ∀ {x y : Rule Expr},
          Parallel move move' (· = next.kind) (SameExpr move move') x y →
          ((advance >>= fun _ => x >>= fun longer => pure (Sum.inl longer)) s).Beside move move'
            (Sum.LiftRel (SameExpr move move') (SameExpr move move'))
            ((advance >>= fun _ => y >>= fun longer => pure (Sum.inl longer)) t) := by
        intro x y hxy
        refine parallel_bind hxy (fun _ _ h => parallel_pure (.inl h)) _ _ hst.advance hlead
      split
      · next hparen =>
          refine hlonger ((parallel_call hsub hleft).mono ?_)
          rintro _ rfl
          exact hparen
      · refine hlonger ((parallel_binary hsub hleft).mono ?_)
        rintro _ rfl heof
        rw [heof] at hlevel
        exact absurd hlevel (Nat.not_lt_zero _)
  · exact .found (.inr hleft) hst

end Rules

/-- What is read as an expression depends only on the kinds and the texts of the tokens. -/
theorem parallelExprs_expression (bound bound' : Nat) :
    ParallelExprs move move' (expression bound) (expression bound') := by
  induction bound generalizing bound' with
  | zero => exact fun _ _ _ _ _ => .cutLeft _
  | succ bound ih =>
      cases bound' with
      | zero => exact fun _ _ _ _ _ => .cutRight _
      | succ bound' =>
          intro level
          have hsub := ih bound'
          refine parallel_traced _ ?_
          refine parallel_bind (parallel_operand hsub) fun left left' hleft => ?_
          exact parallel_iterate (fun _ _ hleft => parallel_operatorRound hsub level hleft)
            bound bound' hleft

/-- Two programs that are the same but for places. -/
def SameProgram (move move' : Position → Position) (p p' : Program) : Prop :=
  p.relabel (Token.moved move) (Token.moved move) =
    p'.relabel (Token.moved move') (Token.moved move')

theorem parallel_program (bound bound' : Nat) :
    Parallel move move' anyKind (SameProgram move move') (program bound) (program bound') := by
  have hsub : ParallelExprs move move' (expression bound) (expression bound') :=
    parallelExprs_expression bound bound'
  apply parallel_silent
  refine parallel_bind (parallel_statementLoop hsub rfl [] rfl) fun stmts stmts' hstmts => ?_
  refine parallel_pure (congrArg Program.mk ?_)
  rw [Stmt.relabelEach_eq_map, Stmt.relabelEach_eq_map]
  exact hstmts.symm

/-- Streams with the same tokens but for places are read as the same program but for places, and
with the same faults. -/
theorem parse_parallel {input input' : Token.Stream}
    (hitems : input.items.map (Token.moved move) = input'.items.map (Token.moved move'))
    (tracing tracing' : Bool) :
    SameProgram move move' (parse input tracing).program (parse input' tracing').program ∧
      (parse input tracing).faults = (parse input' tracing').faults := by
  obtain ⟨p, s, hfound, hparse⟩ := parse_eq input tracing
  obtain ⟨p', s', hfound', hparse'⟩ := parse_eq input' tracing'
  have halike : State.Alike move move' (.ofStream tracing input) (.ofStream tracing' input') :=
    ⟨hitems, rfl⟩
  have hbeside := parallel_program (boundFor input) (boundFor input') _ _ halike trivial
  rw [hfound, hfound'] at hbeside
  rw [hparse, hparse']
  -- neither of the two is cut off, so they have found programs that correspond
  cases hbeside with
  | found hprogram hst => exact ⟨hprogram, congrArg List.reverse hst.faults⟩

end Monkey.Grammar
