import Monkey.Proofs.Grammar.Derivation
import Monkey.Proofs.Grammar.Halting

/-!
# What is read has a derivation

If nothing is found wrong with a list of tokens, the program that is read from it has a derivation
from that list. A block that is still open at the end of the input is closed there, so the list of
the derivation may have some closing braces more at its end. Whether or not anything is found wrong,
what is read has a lenient derivation, where the tokens of the statements that fail are passed over.
Everything that can be said of the trees that are read is drawn from it.

`Reads brace mode D s s' rest` is the statement that is taken through the rules: if the state `s'`
is clean, then so is the state `s` before, and `D` holds of the tokens between `s` and `rest`, in
the strict mode if `s'` is clean, and in the lenient one in any case.
-/

namespace Monkey.Grammar

open Rule Outcome

/-- `ws` are the tokens of `ts` up to `rest`, and at the end of the input any number of closing
braces after them. -/
def Spans (brace : Token) (ts rest ws : List Token) : Prop :=
  ∃ used k, ts = used ++ rest ∧ ws = used ++ List.replicate k brace ∧ (rest = [] ∨ k = 0)

namespace Spans

variable {brace : Token} {ts mid rest ws us : List Token} {t : Token}

theorem nil : Spans brace ts ts [] := ⟨[], 0, rfl, rfl, .inr rfl⟩

theorem head : Spans brace (t :: rest) rest [t] := ⟨[t], 0, rfl, rfl, .inr rfl⟩

theorem trans (h : Spans brace ts mid ws) (h' : Spans brace mid rest us) :
    Spans brace ts rest (ws ++ us) := by
  obtain ⟨used, k, rfl, rfl, hk⟩ := h
  obtain ⟨used', k', rfl, rfl, hk'⟩ := h'
  rcases hk with hmid | rfl
  · obtain ⟨rfl, rfl⟩ := List.append_eq_nil_iff.mp hmid
    refine ⟨used, k + k', rfl, ?_, .inl rfl⟩
    rw [List.nil_append, List.append_assoc, List.replicate_append_replicate]
  · exact ⟨used ++ used', k', by simp, by simp, hk'⟩

theorem cons (h : Spans brace ts rest ws) : Spans brace (t :: ts) rest (t :: ws) :=
  head.trans h

theorem snoc (h : Spans brace ts (t :: rest) ws) : Spans brace ts rest (ws ++ [t]) :=
  h.trans head

/-- The end of the input stands for a closing brace. -/
theorem close (h : Spans brace ts [] ws) : Spans brace ts [] (ws ++ [brace]) :=
  h.trans ⟨[], 1, rfl, rfl, .inl rfl⟩

theorem subset (h : Spans brace ts rest ws) : ∀ u ∈ rest, u ∈ ts := by
  obtain ⟨used, k, rfl, -, -⟩ := h
  intro u hu
  exact List.mem_append_right used hu

/-- The first token of what is spanned is the first one there is, unless nothing is spanned. -/
theorem head?_eq (h : Spans brace ts rest ws) (hbrace : brace.kind = .rbrace) :
    ws.head? = ts.head? ∨ leadKind ws = .eof ∨ leadKind ws = .rbrace := by
  obtain ⟨used, k, rfl, rfl, -⟩ := h
  cases used with
  | cons u used => exact .inl rfl
  | nil =>
      cases k with
      | zero => exact .inr (.inl rfl)
      | succ k => exact .inr (.inr hbrace)

theorem eq_append_replicate (h : Spans brace ts [] ws) :
    ∃ k, ws = ts ++ List.replicate k brace := by
  obtain ⟨used, k, rfl, rfl, -⟩ := h
  exact ⟨k, by simp⟩

end Spans

namespace State

theorem tokens_eq_cons {s : State} {kind : Token.Kind} (h : leadKind s.tokens = kind)
    (hk : kind ≠ .eof) :
    s.tokens = s.input.current :: s.ahead ∧ s.input.current.kind = kind := by
  obtain ⟨t, rest, ht, hkind⟩ := eq_cons_of_leadKind h hk
  rw [current_of_tokens ht, ahead_of_tokens ht]
  exact ⟨ht, hkind⟩

theorem ahead_eq_cons {s : State} {kind : Token.Kind} (h : leadKind s.ahead = kind)
    (hk : kind ≠ .eof) :
    s.ahead = s.input.peek :: s.advance.ahead ∧ s.input.peek.kind = kind := by
  have h' := @tokens_eq_cons s.advance kind (by rwa [tokens_advance]) hk
  rwa [tokens_advance] at h'

end State

/-- What the mode asks of the tokens that are read from `s` on, up to the state `s'`. -/
def Mode.Admits (mode : Mode) (s s' : State) : Prop :=
  mode = .lenient ∨ s.Proper ∧ s'.Clean

theorem Mode.Admits.mono {mode : Mode} {s s' s₁ s₁' : State} (h : mode.Admits s s')
    (htokens : ∀ t ∈ s₁.tokens, t ∈ s.tokens) (hclean : s'.Clean → s₁'.Clean) :
    mode.Admits s₁ s₁' := by
  rcases h with hmode | ⟨hproper, hclean'⟩
  · exact .inl hmode
  · exact .inr ⟨fun t ht => hproper t (htokens t ht), hclean hclean'⟩

/-- Where `s'` is clean, `s` was so too, and `D` holds of the tokens between `s` and `rest`. -/
def Reads (brace : Token) (mode : Mode) (D : List Token → Prop) (s s' : State)
    (rest : List Token) : Prop :=
  (s'.Clean → s.Clean) ∧
    (mode.Admits s s' → ∃ ws, Spans brace s.tokens rest ws ∧ D ws)

section Reads

variable {brace : Token} {mode : Mode} {D D' : List Token → Prop} {s s' : State}
  {rest : List Token}

@[simp] theorem reads_enter (rule : RuleName) :
    Reads brace mode D (s.enter rule) s' rest ↔ Reads brace mode D s s' rest := by
  simp [Reads, Mode.Admits]

@[simp] theorem reads_leave (rule : RuleName) :
    Reads brace mode D s (s'.leave rule) rest ↔ Reads brace mode D s s' rest := by
  simp [Reads, Mode.Admits]

/-- The tokens between two states that have the same faults. -/
theorem reads_of_spans {ws : List Token} (hclean : s'.Clean → s.Clean)
    (hspan : Spans brace s.tokens rest ws) (hws : D ws) : Reads brace mode D s s' rest :=
  ⟨hclean, fun _ => ⟨ws, hspan, hws⟩⟩

theorem Reads.mono (h : Reads brace mode D s s' rest) (hD : ∀ ws, D ws → D' ws) :
    Reads brace mode D' s s' rest := by
  refine ⟨h.1, fun hadmits => ?_⟩
  obtain ⟨ws, hspan, hws⟩ := h.2 hadmits
  exact ⟨ws, hspan, hD ws hws⟩

/-- The current token before the others. -/
theorem Reads.cons (h : Reads brace mode (fun ws => D (s.input.current :: ws)) s.advance s' rest)
    (hkind : leadKind s.tokens ≠ .eof) : Reads brace mode D s s' rest := by
  obtain ⟨htokens, -⟩ := State.tokens_eq_cons rfl hkind
  rw [← State.tokens_advance] at htokens
  refine ⟨h.1, fun hadmits => ?_⟩
  obtain ⟨ws, hspan, hws⟩ := h.2 (hadmits.mono (fun t ht => by rw [htokens]; exact .tail _ ht) id)
  exact ⟨_, htokens ▸ hspan.cons, hws⟩

/-- A token after the others. -/
theorem Reads.snoc {s₁ : State} {t : Token}
    (h : Reads brace mode (fun ws => D (ws ++ [t])) s s₁ (t :: rest))
    (hclean : s'.Clean ↔ s₁.Clean) : Reads brace mode D s s' rest := by
  refine ⟨fun hc => h.1 (hclean.mp hc), fun hadmits => ?_⟩
  obtain ⟨ws, hspan, hws⟩ := h.2 (hadmits.mono (fun _ ht => ht) hclean.mp)
  exact ⟨ws ++ [t], hspan.snoc, hws⟩

/-- Two stretches of tokens, one after the other. -/
theorem Reads.append {E F : List Token → Prop} {s₁ s₂ : State}
    (h₁ : Reads brace mode E s s₁ s₂.tokens) (hclean : s₂.Clean ↔ s₁.Clean)
    (h₂ : Reads brace mode F s₂ s' rest) (hD : ∀ us vs, E us → F vs → D (us ++ vs)) :
    Reads brace mode D s s' rest := by
  have hclean₁ : s'.Clean → s₁.Clean := fun h => hclean.mp (h₂.1 h)
  refine ⟨fun h => h₁.1 (hclean₁ h), fun hadmits => ?_⟩
  obtain ⟨us, hspan₁, hus⟩ := h₁.2 (hadmits.mono (fun _ ht => ht) hclean₁)
  obtain ⟨vs, hspan₂, hvs⟩ := h₂.2 (hadmits.mono hspan₁.subset id)
  exact ⟨us ++ vs, hspan₁.trans hspan₂, hD us vs hus hvs⟩

theorem Reads.leads (h : Reads brace mode D s s' rest) (hbrace : brace.kind = .rbrace) :
    Reads brace mode (fun ws => D ws ∧
      (ws.head? = s.tokens.head? ∨ leadKind ws = .eof ∨ leadKind ws = .rbrace)) s s' rest := by
  refine ⟨h.1, fun hadmits => ?_⟩
  obtain ⟨ws, hspan, hws⟩ := h.2 hadmits
  exact ⟨ws, hspan, hws, hspan.head?_eq hbrace⟩

/-- Tokens that are passed over, up to a state that is not clean. -/
theorem Reads.drop {s₁ : State} (h : Reads brace mode D s₁ s' rest) (hclean : ¬ s₁.Clean)
    (htokens : s₁.tokens <:+ s.tokens)
    (hD : mode = .lenient → ∀ us ws, D ws → D (us ++ ws)) : Reads brace mode D s s' rest := by
  refine ⟨fun hc => absurd (h.1 hc) hclean, fun hadmits => ?_⟩
  rcases hadmits with hmode | ⟨-, hc⟩
  · obtain ⟨ws, hspan, hws⟩ := h.2 (.inl hmode)
    obtain ⟨us, hus⟩ := htokens
    refine ⟨us ++ ws, ?_, hD hmode us ws hws⟩
    rw [← hus]
    exact .trans ⟨us, 0, rfl, by simp, .inr rfl⟩ hspan
  · exact absurd (h.1 hc) hclean

end Reads

/-- From `s` the rule reads tokens of which `D` holds together with what it found and the kind of
the token after them. -/
def Sound {α : Type} (brace : Token) (mode : Mode) (D : α → Token.Kind → List Token → Prop)
    (r : Rule α) (s : State) : Prop :=
  (r s).Satisfies (fun a s' => Reads brace mode (D a (leadKind s'.ahead)) s s' s'.ahead)
    (fun s' => ¬ s'.Clean) True

theorem sound_traced {α : Type} {brace : Token} {mode : Mode}
    {D : α → Token.Kind → List Token → Prop} {name : RuleName} {r : Rule α} {s : State}
    (h : ∀ s₀ : State, s₀.tokens = s.tokens → Sound brace mode D r s₀) :
    Sound brace mode D (traced name r) s := by
  have h₀ := h (s.enter name) (State.tokens_enter name s)
  simp only [Sound, reads_enter] at h₀
  simpa [Sound, satisfies_traced] using h₀

/-- An expression that is read at `level`: it has a derivation, and the token after it does not go
on with it. -/
def ExprTokens (mode : Mode) (level : Level) (e : Expr) (next : Token.Kind) (ws : List Token) :
    Prop :=
  Derives mode (.expr level.inner e) ws ∧ (Level.ofKind next).rank ≤ level.rank

/-- An expression that may become the left operand of the next token. -/
def LeftTokens (mode : Mode) (level : Level) (e : Expr) (next : Token.Kind) (ws : List Token) :
    Prop :=
  ∃ m, level.rank ≤ m.rank ∧ (Level.ofKind next).rank ≤ m.rank ∧ Derives mode (.expr m e) ws

/-- A statement with the semicolon after it, or without one where the token after it is none of
those that would belong to the statement. -/
def StmtTokens (mode : Mode) (stmt : Stmt) (next : Token.Kind) (ws : List Token) : Prop :=
  (∃ ts semi, Derives mode (.stmt stmt) ts ∧ semi.kind = .semicolon ∧ ws = ts ++ [semi]) ∨
    (Derives mode (.stmt stmt) ws ∧ next ≠ .semicolon ∧ next ∉ joiners)

/-- The end of a list in parentheses. -/
def UpToParen (D : List Token → Prop) (ws : List Token) : Prop :=
  ∃ ts rp, D ts ∧ rp.kind = .rparen ∧ ws = ts ++ [rp]

/-- What a loop over the elements of a list has done: those found so far, which are held newest
first, are followed by some more, up to the closing parenthesis. -/
def ListEnd {α : Type} (brace : Token) (mode : Mode) (D : List α → List Token → Prop)
    (done : List α) (s : State) (result : List α) (s' : State) : Prop :=
  ∃ more, result = done.reverse ++ more ∧
    Reads brace mode (UpToParen (D more)) s.advance s' s'.ahead

section Rules

variable {brace : Token} {mode : Mode} {sub : ExprRule} {bound : Nat}
  (hsub : ∀ level s, level ≠ .call → Sound brace mode (ExprTokens mode level) (sub level) s)

/-- The end of a statement. -/
theorem accept_semicolon_sound {stmt : Stmt} {s s₁ : State}
    (h : Reads brace mode (fun ws => Derives mode (.stmt stmt) ws ∧
      (Level.ofKind (leadKind s₁.ahead)).rank ≤ Level.lowest.rank) s s₁ s₁.ahead) :
    ((accept .semicolon >>= fun _ => pure stmt) s₁).Satisfies
      (fun stmt s' => Reads brace mode (StmtTokens mode stmt (leadKind s'.ahead)) s s' s'.ahead)
      (fun s' => ¬ s'.Clean) True := by
  simp only [satisfies_bind, satisfies_accept, satisfies_pure]
  refine ⟨fun hsemi => ?_, fun hother => ?_⟩
  · obtain ⟨hahead, hkind⟩ := State.ahead_eq_cons hsemi (by simp)
    rw [hahead] at h
    refine Reads.snoc (t := s₁.input.peek) (h.mono ?_) (State.clean_advance s₁)
    intro ts hts
    exact .inl ⟨ts, _, hts.1, hkind, rfl⟩
  · refine h.mono fun ws hws => .inr ⟨hws.1, hother, ?_⟩
    rw [mem_joiners_iff]
    exact Nat.not_lt.mpr hws.2

include hsub

theorem binding_sound (s : State) (hlet : leadKind s.tokens = .let) :
    Sound brace mode (StmtTokens mode) (binding sub) s := by
  refine sound_traced fun s₀ hs₀ => ?_
  rw [← hs₀] at hlet
  simp only [Sound, satisfies_bind (β := Token), satisfies_bind (β := Unit),
    satisfies_bind (β := Expr), satisfies_current, satisfies_expect, satisfies_advance]
  refine ⟨fun hname => ⟨fun hassign => ?_, fun _ => State.not_clean_report _ _⟩,
    fun _ => State.not_clean_report _ _⟩
  obtain ⟨-, hkind⟩ := State.tokens_eq_cons hlet (by simp)
  obtain ⟨-, hident⟩ := State.ahead_eq_cons hname (by simp)
  obtain ⟨-, heq⟩ := State.ahead_eq_cons hassign (by simp)
  refine (hsub .lowest _ (by simp)).mono ?_ (fun _ h => h) id
  intro value s₁ hvalue
  refine accept_semicolon_sound ?_
  refine Reads.cons ?_ (by simp [hlet])
  refine Reads.cons ?_ (by simp [hname])
  refine Reads.cons ?_ (by simp [hassign])
  exact hvalue.mono fun ws hws => ⟨.bind hkind hident heq hws.1, hws.2⟩

theorem returning_sound (s : State) (hreturn : leadKind s.tokens = .return) :
    Sound brace mode (StmtTokens mode) (returning sub) s := by
  refine sound_traced fun s₀ hs₀ => ?_
  rw [← hs₀] at hreturn
  simp only [Sound, satisfies_bind (β := Token), satisfies_bind (β := Unit),
    satisfies_bind (β := Expr), satisfies_current, satisfies_advance]
  obtain ⟨-, hkind⟩ := State.tokens_eq_cons hreturn (by simp)
  refine (hsub .lowest _ (by simp)).mono ?_ (fun _ h => h) id
  intro value s₁ hvalue
  refine accept_semicolon_sound ?_
  refine Reads.cons ?_ (by simp [hreturn])
  exact hvalue.mono fun ws hws => ⟨.ret hkind hws.1, hws.2⟩

theorem exprStmt_sound (hbrace : brace.kind = .rbrace) (s : State) :
    Sound brace mode (StmtTokens mode) (exprStmt sub) s := by
  refine sound_traced fun s₀ _ => ?_
  simp only [Sound, satisfies_bind (β := Token), satisfies_bind (β := Expr), satisfies_current]
  refine (hsub .lowest _ (by simp)).mono ?_ (fun _ h => h) id
  intro value s₁ hvalue
  refine accept_semicolon_sound ((hvalue.leads hbrace).mono ?_)
  rintro ws ⟨⟨hws, hnext⟩, hlead⟩
  -- The first token of an expression is no brace, so it is the current one.
  obtain ⟨t, us, rfl, hstart⟩ := hws.expr_eq_cons
  have hhead : s₀.tokens.head? = some t := by
    rcases hlead with hlead | hlead | hlead
    · exact hlead.symm
    · simp only [leadKind_cons] at hlead
      simp [hlead, starters] at hstart
    · simp only [leadKind_cons] at hlead
      simp [hlead, starters] at hstart
  obtain ⟨rest, hrest⟩ := List.head?_eq_some_iff.mp hhead
  rw [State.current_of_tokens hrest]
  exact ⟨.exprStmt hws, hnext⟩

theorem statement_sound (hbrace : brace.kind = .rbrace) (s : State) :
    Sound brace mode (StmtTokens mode) (statement sub) s := by
  simp only [Sound, statement, satisfies_silent, satisfies_bind, satisfies_current]
  have hlet := binding_sound hsub s
  have hreturn := returning_sound hsub s
  rw [← State.current_kind] at hlet hreturn
  cases h : s.input.current.kind with
  | «let» => exact hlet h
  | «return» => exact hreturn h
  | _ => exact exprStmt_sound hsub hbrace s

/-- A list of statements, up to a token at which it stops. -/
theorem statements_sound (hbrace : brace.kind = .rbrace) (stop : Token.Kind → Bool) (s : State) :
    (statements sub bound stop s).Satisfies
      (fun ss s' => stop (leadKind s'.tokens) ∧
        Reads brace mode (Derives mode (.stmts ss)) s s' s'.tokens)
      (fun s' => ¬ s'.Clean) True := by
  refine (satisfies_iterate (fun _ _ => True)
    (fun done s result s' => ∃ ss, result = done.reverse ++ ss ∧ stop (leadKind s'.tokens) ∧
      Reads brace mode (Derives mode (.stmts ss)) s s' s'.tokens) ?_ bound [] s trivial).mono ?_
      (fun _ h => h) id
  · intro done s _
    simp only [statementRound, satisfies_bind, satisfies_current, satisfies_ite, satisfies_pure,
      satisfies_attempt, satisfies_advance, State.current_kind]
    refine ⟨fun hstop => ?_, fun _ => ?_⟩
    · exact ⟨[], by simp, hstop, reads_of_spans id .nil .noStmts⟩
    · have htokens := steady_tokens.run (statement sub) s
      refine ((statement_sound hsub hbrace s).and htokens).mono ?_ ?_ And.left
      · rintro stmt s₁ ⟨hstmt, -⟩
        refine ⟨trivial, ?_⟩
        rintro result s' ⟨ss, rfl, hstop, hmore⟩
        refine ⟨stmt :: ss, by simp, hstop, ?_⟩
        rw [← State.tokens_advance] at hstmt
        refine hstmt.append Iff.rfl (hmore.leads hbrace) ?_
        rintro us vs hus ⟨hvs, hlead⟩
        rcases hus with ⟨ts, semi, hts, hsemi, rfl⟩ | ⟨hus, hnext⟩
        · rw [List.append_assoc]
          exact .closed hts hsemi hvs
        · refine .unclosed hus hvs ?_
          rcases hlead with hlead | hlead | hlead
          · rwa [leadKind_of_head? hlead]
          · simp [hlead, joiners]
          · simp [hlead, joiners]
      · rintro s₁ ⟨hfailed, hsuffix⟩
        refine ⟨trivial, ?_⟩
        rintro result s' ⟨ss, rfl, hstop, hmore⟩
        refine ⟨ss, rfl, hstop, hmore.drop hfailed ?_ fun hmode us _ => .dropped hmode us⟩
        rw [State.tokens_advance]
        exact (List.tail_suffix _).trans hsuffix
  · rintro result s' ⟨ss, rfl, hstop, hread⟩
    exact ⟨hstop, hread⟩

theorem block_sound (hbrace : brace.kind = .rbrace) (s : State)
    (hopen : leadKind s.tokens = .lbrace) :
    Sound brace mode (fun b _ => Derives mode (.block b)) (block sub bound) s := by
  refine sound_traced fun s₀ hs₀ => ?_
  rw [← hs₀] at hopen
  simp only [Sound, satisfies_bind, satisfies_current, satisfies_advance, satisfies_pure]
  obtain ⟨-, hkind⟩ := State.tokens_eq_cons hopen (by simp)
  refine (statements_sound hsub hbrace closesBlock s₀.advance).mono ?_ (fun _ h => h) id
  rintro ss s' ⟨hstop, hread⟩
  refine Reads.cons ?_ (by simp [hopen])
  simp only [closesBlock, Bool.or_eq_true, decide_eq_true_eq] at hstop
  rcases hstop with hclose | heof
  · obtain ⟨hclosed, hrb⟩ := State.tokens_eq_cons hclose (by simp)
    rw [hclosed] at hread
    exact Reads.snoc (hread.mono fun ws hws => .block hkind hws hrb) Iff.rfl
  · refine ⟨hread.1, fun hadmits => ?_⟩
    obtain ⟨ws, hspan, hws⟩ := hread.2 hadmits
    cases htokens : s'.tokens with
    | nil =>
        rw [htokens] at hspan
        refine ⟨ws ++ [brace], ?_, .block hkind hws hbrace⟩
        rw [State.ahead, htokens]
        exact hspan.close
    | cons t ts =>
        -- an end token that is not the end of the list, which the strict mode does not admit
        rw [htokens, leadKind_cons] at heof
        rw [htokens] at hspan
        rcases hadmits with hmode | ⟨hproper, -⟩
        · refine ⟨ws ++ [t], ?_, .openBlock hmode hkind hws heof⟩
          rw [State.ahead_of_tokens htokens]
          exact hspan.snoc
        · exact absurd heof (hproper t (hspan.subset t (.head _)))

omit hsub in
theorem integer_sound (s : State) (hint : leadKind s.tokens = .int) :
    Sound brace mode (LeftTokens mode .unary) integer s := by
  refine sound_traced fun s₀ hs₀ => ?_
  rw [← hs₀] at hint
  simp only [Sound, satisfies_bind, satisfies_current]
  obtain ⟨htokens, hkind⟩ := State.tokens_eq_cons hint (by simp)
  cases hvalue : Text.Decimal.int64? s₀.input.current.literal with
  | none => exact State.not_clean_report _ _
  | some value =>
      have hspan : Spans brace s₀.tokens s₀.ahead [s₀.input.current] := htokens ▸ .head
      exact reads_of_spans id hspan ⟨.call, by simp, Level.rank_ofKind_le _, .int hkind hvalue⟩

theorem unary_sound (s : State) (hsign : leadKind s.tokens ∈ signs) :
    Sound brace mode (LeftTokens mode .unary) (unary sub) s := by
  refine sound_traced fun s₀ hs₀ => ?_
  rw [← hs₀] at hsign
  simp only [Sound, satisfies_bind, satisfies_current, satisfies_advance, satisfies_pure]
  have hne : leadKind s₀.tokens ≠ .eof := by
    intro heof
    simp [heof, signs] at hsign
  obtain ⟨-, hkind⟩ := State.tokens_eq_cons rfl hne
  rw [← hkind] at hsign
  refine (hsub .unary _ (by simp)).mono ?_ (fun _ h => h) id
  intro right s' hright
  refine Reads.cons ?_ hne
  exact hright.mono fun ws hws =>
    ⟨.unary, Nat.le_refl _, hws.2, .unary (Nat.le_refl _) hsign hws.1⟩

theorem group_sound (s : State) (hopen : leadKind s.tokens = .lparen) :
    Sound brace mode (LeftTokens mode .unary) (group sub) s := by
  simp only [Sound, group, satisfies_silent, satisfies_bind, satisfies_advance, satisfies_expect,
    satisfies_pure]
  obtain ⟨-, hkind⟩ := State.tokens_eq_cons hopen (by simp)
  refine (hsub .lowest _ (by simp)).mono ?_ (fun _ h => h) id
  intro inside s₁ hinside
  refine ⟨fun hclose => ?_, fun _ => State.not_clean_report _ _⟩
  obtain ⟨hahead, hrp⟩ := State.ahead_eq_cons hclose (by simp)
  rw [hahead] at hinside
  refine Reads.cons ?_ (by simp [hopen])
  refine Reads.snoc (hinside.mono fun ws hws => ?_) Iff.rfl
  exact ⟨.call, by simp, Level.rank_ofKind_le _, .group hkind hws.1 hrp⟩

theorem cond_sound (hbrace : brace.kind = .rbrace) (s : State)
    (hif : leadKind s.tokens = .if) :
    Sound brace mode (LeftTokens mode .unary) (cond sub bound) s := by
  refine sound_traced fun s₀ hs₀ => ?_
  rw [← hs₀] at hif
  simp only [Sound, satisfies_bind, satisfies_current, satisfies_expect, satisfies_advance,
    satisfies_accept, satisfies_ite, satisfies_pure, Bool.false_eq_true, true_implies,
    false_implies, not_true_eq_false, not_false_eq_true, and_true, true_and]
  obtain ⟨-, hkind⟩ := State.tokens_eq_cons hif (by simp)
  refine ⟨fun hopen => ?_, fun _ => State.not_clean_report _ _⟩
  obtain ⟨-, hlp⟩ := State.ahead_eq_cons hopen (by simp)
  refine (hsub .lowest _ (by simp)).mono ?_ (fun _ h => h) id
  intro condition s₁ hcondition
  refine ⟨fun hclose => ⟨fun hbody => ?_, fun _ => State.not_clean_report _ _⟩,
    fun _ => State.not_clean_report _ _⟩
  obtain ⟨-, hrp⟩ := State.ahead_eq_cons hclose (by simp)
  refine (block_sound hsub hbrace s₁.advance.advance (by simpa using hbody)).mono ?_
    (fun _ h => h) id
  intro consequence s₂ hconsequence
  -- What has been read up to here is the same with and without an alternative.
  have hread : Reads brace mode (fun ws => ∃ cs bs, Derives mode (.expr .lowest condition) cs ∧
      Derives mode (.block consequence) bs ∧ ws = s₀.input.current :: s₀.input.peek ::
        (cs ++ s₁.input.peek :: bs)) s₀ s₂ s₂.ahead := by
    refine Reads.cons ?_ (by simp [hif])
    refine Reads.cons ?_ (by simp [hopen])
    rw [← State.tokens_advance] at hcondition
    refine hcondition.append (F := fun ws => ∃ bs, Derives mode (.block consequence) bs ∧
      ws = s₁.input.peek :: bs) Iff.rfl ?_ ?_
    · refine Reads.cons ?_ (by simp [hclose])
      exact hconsequence.mono fun bs hbs => ⟨bs, hbs, rfl⟩
    · rintro cs vs hcs ⟨bs, hbs, rfl⟩
      exact ⟨cs, bs, hcs.1, hbs, rfl⟩
  refine ⟨fun helse => ?_, fun _ => ?_⟩
  · refine ⟨fun hbody₂ => ?_, fun _ => State.not_clean_report _ _⟩
    obtain ⟨-, hel⟩ := State.ahead_eq_cons helse (by simp)
    refine (block_sound hsub hbrace s₂.advance.advance (by simpa using hbody₂)).mono ?_
      (fun _ h => h) id
    intro alternative s₃ halternative
    rw [← State.tokens_advance] at hread
    refine hread.append (F := fun ws => ∃ bs, Derives mode (.block alternative) bs ∧
      ws = s₂.input.peek :: bs) Iff.rfl ?_ ?_
    · refine Reads.cons ?_ (by simp [helse])
      exact halternative.mono fun bs hbs => ⟨bs, hbs, rfl⟩
    · rintro us vs ⟨cs, bs, hcs, hbs, rfl⟩ ⟨bs', hbs', rfl⟩
      refine ⟨.call, by simp, Level.rank_ofKind_le _, ?_⟩
      simpa using Derives.condElse hkind hlp hcs hrp hbs hel hbs'
  · refine hread.mono ?_
    rintro ws ⟨cs, bs, hcs, hbs, rfl⟩
    exact ⟨.call, by simp, Level.rank_ofKind_le _, .cond hkind hlp hcs hrp hbs⟩

omit hsub in
/-- One more element of a list in parentheses takes a comma; else the list is closed. -/
theorem list_end_sound {α : Type} {D : List α → List Token → Prop} (hnil : D [] [])
    (done : List α) (s : State) :
    ((expect .rparen >>= fun _ => pure (.inr done.reverse : List α ⊕ List α)) s).Satisfies
      (RoundFits (fun _ _ => True) (ListEnd brace mode D) done s) (fun s' => ¬ s'.Clean) True := by
  simp only [satisfies_bind, satisfies_expect, satisfies_pure]
  refine ⟨fun hclose => ?_, fun _ => State.not_clean_report _ _⟩
  obtain ⟨hahead, hrp⟩ := State.ahead_eq_cons hclose (by simp)
  refine ⟨[], by simp, reads_of_spans id ?_ ⟨[], s.input.peek, hnil, hrp, rfl⟩⟩
  rw [State.tokens_advance, hahead]
  exact Spans.head

omit hsub in
theorem params_sound (brace : Token) (mode : Mode) (s : State)
    (hopen : leadKind s.tokens = .lparen) :
    Sound brace mode (fun ids _ ws => ∃ us, UpToParen (Params ids) us ∧ ws = s.input.current :: us)
      (params bound) s := by
  simp only [Sound, params, satisfies_silent, satisfies_bind, satisfies_expect, satisfies_accept,
    satisfies_ite, satisfies_pure, Bool.false_eq_true, true_implies, false_implies,
    not_true_eq_false, not_false_eq_true, and_true, true_and]
  obtain ⟨htokens, hkind⟩ := State.tokens_eq_cons hopen (by simp)
  refine ⟨fun hclose => ?_, fun _ => ⟨fun hname => ?_, fun _ => State.not_clean_report _ _⟩⟩
  · obtain ⟨hahead, hrp⟩ := State.ahead_eq_cons hclose (by simp)
    refine reads_of_spans id ?_ ⟨_, ⟨[], _, .none, hrp, rfl⟩, rfl⟩
    rw [htokens, hahead]
    exact Spans.head.cons
  · obtain ⟨-, hident⟩ := State.ahead_eq_cons hname (by simp)
    refine (satisfies_iterate (fun _ _ => True) (ListEnd brace mode MoreParams) ?_ bound _ s.advance
      trivial).mono ?_ (fun _ h => h) id
    · intro done s₁ _
      rw [paramRound, satisfies_bind, satisfies_accept]
      refine ⟨fun hcomma => ?_, fun _ => list_end_sound .nil done s₁⟩
      simp only [if_true, satisfies_bind, satisfies_expect, satisfies_pure]
      refine ⟨fun hname => ⟨trivial, ?_⟩, fun _ => State.not_clean_report _ _⟩
      obtain ⟨-, hkind⟩ := State.ahead_eq_cons hcomma (by simp)
      obtain ⟨-, hident⟩ := State.ahead_eq_cons hname (by simp)
      rintro ids s' ⟨more, rfl, hmore⟩
      refine ⟨⟨s₁.advance.input.peek, s₁.advance.input.peek.literal⟩ :: more, by simp, ?_⟩
      refine Reads.cons ?_ (by simp [hcomma])
      refine Reads.cons ?_ (by simp [hname])
      refine hmore.mono ?_
      rintro ws ⟨ps, rp, hps, hrp, rfl⟩
      exact ⟨_, rp, .cons hkind hident hps, hrp, rfl⟩
    · rintro ids s' ⟨more, rfl, hmore⟩
      refine Reads.cons ?_ (by simp [hopen])
      refine Reads.cons ?_ (by simp [hname])
      refine hmore.mono ?_
      rintro ws ⟨ps, rp, hps, hrp, rfl⟩
      exact ⟨_, ⟨_, rp, .some hident hps, hrp, rfl⟩, rfl⟩

theorem args_sound (s : State) (hopen : leadKind s.tokens = .lparen) :
    Sound brace mode (fun es _ ws => ∃ us, UpToParen (Derives mode (.args es)) us ∧
      ws = s.input.current :: us) (args sub bound) s := by
  simp only [Sound, args, satisfies_silent, satisfies_bind, satisfies_advance, satisfies_accept,
    satisfies_ite, satisfies_pure, Bool.false_eq_true, true_implies, false_implies,
    not_true_eq_false, not_false_eq_true, and_true, true_and]
  obtain ⟨htokens, hkind⟩ := State.tokens_eq_cons hopen (by simp)
  refine ⟨fun hclose => ?_, fun _ => ?_⟩
  · obtain ⟨hahead, hrp⟩ := State.ahead_eq_cons hclose (by simp)
    refine reads_of_spans id ?_ ⟨_, ⟨[], _, .noArgs, hrp, rfl⟩, rfl⟩
    rw [htokens, hahead]
    exact Spans.head.cons
  · refine (hsub .lowest _ (by simp)).mono ?_ (fun _ h => h) id
    intro first s₁ hfirst
    refine (satisfies_iterate (fun _ _ => True)
      (ListEnd brace mode fun es => Derives mode (.moreArgs es)) ?_ bound _ s₁ trivial).mono ?_
      (fun _ h => h) id
    · intro done s₂ _
      rw [argRound, satisfies_bind, satisfies_accept]
      refine ⟨fun hcomma => ?_, fun _ => list_end_sound .lastArg done s₂⟩
      simp only [if_true, satisfies_bind, satisfies_advance, satisfies_pure]
      obtain ⟨-, hkind⟩ := State.ahead_eq_cons hcomma (by simp)
      refine (hsub .lowest _ (by simp)).mono ?_ (fun _ h => h) id
      intro next s₃ hnext
      refine ⟨trivial, ?_⟩
      rintro es s' ⟨more, rfl, hmore⟩
      refine ⟨next :: more, by simp, ?_⟩
      refine Reads.cons ?_ (by simp [hcomma])
      rw [← State.tokens_advance] at hnext
      refine hnext.append Iff.rfl hmore ?_
      rintro us vs hus ⟨ts, rp, hts, hrp, rfl⟩
      exact ⟨_, rp, .nextArg hkind hus.1 hts, hrp, by simp⟩
    · rintro es s' ⟨more, rfl, hmore⟩
      refine Reads.cons ?_ (by simp [hopen])
      rw [← State.tokens_advance] at hfirst
      refine hfirst.append Iff.rfl hmore ?_
      rintro us vs hus ⟨ts, rp, hts, hrp, rfl⟩
      exact ⟨_, ⟨us ++ ts, rp, .args hus.1 hts, hrp, by simp⟩, rfl⟩

theorem function_sound (hbrace : brace.kind = .rbrace) (s : State)
    (hfn : leadKind s.tokens = .function) :
    Sound brace mode (LeftTokens mode .unary) (function sub bound) s := by
  refine sound_traced fun s₀ hs₀ => ?_
  rw [← hs₀] at hfn
  simp only [Sound, satisfies_bind, satisfies_current, satisfies_expect, satisfies_pure]
  obtain ⟨-, hkind⟩ := State.tokens_eq_cons hfn (by simp)
  refine ⟨fun hopen => ?_, fun _ => State.not_clean_report _ _⟩
  obtain ⟨-, hlp⟩ := State.ahead_eq_cons hopen (by simp)
  refine (params_sound brace mode s₀.advance (by simpa using hopen)).mono ?_
    (fun _ h => h) id
  intro ids s₁ hids
  refine ⟨fun hbody => ?_, fun _ => State.not_clean_report _ _⟩
  refine (block_sound hsub hbrace s₁.advance (by simpa using hbody)).mono ?_ (fun _ h => h) id
  intro body s₂ hblock
  refine Reads.cons ?_ (by simp [hfn])
  rw [← State.tokens_advance] at hids
  refine hids.append Iff.rfl hblock ?_
  rintro us bs ⟨_, ⟨ps, rp, hps, hrp, rfl⟩, rfl⟩ hbs
  refine ⟨.call, by simp, Level.rank_ofKind_le _, ?_⟩
  have hcurrent : s₀.advance.input.current.kind = .lparen := hlp
  simpa using (Derives.function hkind hcurrent hps hrp hbs : Derives mode (.expr .call _) _)

theorem call_sound (callee : Expr) (s : State) (hopen : leadKind s.tokens = .lparen) :
    Sound brace mode (fun e _ ws => ∃ lp es us, e = .call lp callee es ∧ lp.kind = .lparen ∧
      UpToParen (Derives mode (.args es)) us ∧ ws = lp :: us) (call sub bound callee) s := by
  refine sound_traced fun s₀ hs₀ => ?_
  rw [← hs₀] at hopen
  simp only [Sound, satisfies_bind, satisfies_current, satisfies_pure]
  obtain ⟨-, hkind⟩ := State.tokens_eq_cons hopen (by simp)
  refine (args_sound hsub s₀ hopen).mono ?_ (fun _ h => h) id
  intro es s' hes
  refine hes.mono ?_
  rintro ws ⟨us, hus, rfl⟩
  exact ⟨_, es, us, rfl, hkind, hus, rfl⟩

theorem binary_sound {level : Level} (left : Expr) (s : State)
    (hop : leadKind s.tokens ∈ level.operators) :
    Sound brace mode (fun e next ws => ∃ op right us, e = .binary op op.literal left right ∧
      op.kind ∈ level.operators ∧ ExprTokens mode level right next us ∧ ws = op :: us)
      (binary sub left) s := by
  refine sound_traced fun s₀ hs₀ => ?_
  rw [← hs₀] at hop
  simp only [Sound, satisfies_bind, satisfies_current, satisfies_advance, satisfies_pure]
  have hne : leadKind s₀.tokens ≠ .eof := by
    intro heof
    rw [heof] at hop
    cases level <;> simp [Level.operators] at hop
  obtain ⟨-, hkind⟩ := State.tokens_eq_cons rfl hne
  rw [← hkind] at hop
  rw [Level.ofKind_of_mem_operators hop]
  have hlevel : level ≠ .call := by
    rintro rfl
    simp [Level.operators] at hop
  refine (hsub level _ hlevel).mono ?_ (fun _ h => h) id
  intro right s' hright
  refine Reads.cons ?_ hne
  exact hright.mono fun us hus => ⟨_, right, us, rfl, hop, hus, rfl⟩

theorem operand_sound (hbrace : brace.kind = .rbrace) (s : State) :
    Sound brace mode (LeftTokens mode .unary) (operand sub bound) s := by
  simp only [Sound, operand, satisfies_bind, satisfies_current]
  have hkind := State.current_kind s
  have hatom {e : Expr} {t : Token} (htokens : s.tokens = t :: s.ahead)
      (he : Derives mode (.expr .call e) [t]) :
      Reads brace mode (LeftTokens mode .unary e (leadKind s.ahead)) s s s.ahead :=
    have hspan : Spans brace s.tokens s.ahead [t] := htokens ▸ .head
    reads_of_spans id hspan ⟨.call, by simp, Level.rank_ofKind_le _, he⟩
  cases h : s.input.current.kind with
  | ident => exact hatom (State.tokens_eq_cons (hkind.symm.trans h) (by simp)).1 (.ident h)
  | int => exact integer_sound s (hkind.symm.trans h)
  | bang => exact unary_sound hsub s (by simp [← hkind, h, signs])
  | minus => exact unary_sound hsub s (by simp [← hkind, h, signs])
  | «true» => exact hatom (State.tokens_eq_cons (hkind.symm.trans h) (by simp)).1 (.yes h)
  | «false» => exact hatom (State.tokens_eq_cons (hkind.symm.trans h) (by simp)).1 (.no h)
  | lparen => exact group_sound hsub s (hkind.symm.trans h)
  | «if» => exact cond_sound hsub hbrace s (hkind.symm.trans h)
  | function => exact function_sound hsub hbrace s (hkind.symm.trans h)
  | _ => exact State.not_clean_report _ _

/-- A round of operators, where the left operand has been read since `s₀`. -/
theorem operatorRound_sound {level : Level} (hlevel : level ≠ .call) {s₀ : State} (left : Expr)
    (s : State)
    (hleft : Reads brace mode (LeftTokens mode level.inner left (leadKind s.ahead)) s₀ s s.ahead) :
    (operatorRound sub bound level left s).Satisfies
      (RoundFits
        (fun e s' =>
          Reads brace mode (LeftTokens mode level.inner e (leadKind s'.ahead)) s₀ s' s'.ahead)
        (fun _ _ e s' =>
          Reads brace mode (ExprTokens mode level e (leadKind s'.ahead)) s₀ s' s'.ahead)
        left s)
      (fun s' => ¬ s'.Clean) True := by
  simp only [operatorRound, satisfies_bind, satisfies_peek, satisfies_ite, satisfies_advance,
    satisfies_pure, State.peek_kind]
  have hinner : level.inner.rank ≤ Level.unary.rank := Level.inner_le_unary hlevel
  refine ⟨fun hjoin => ⟨fun hparen => ?_, fun hparen => ?_⟩, fun hstop => ?_⟩
  · refine (call_sound hsub left s.advance (by simpa using hparen)).mono ?_ (fun _ h => h) id
    intro longer s' hcall
    refine ⟨?_, fun _ _ h => h⟩
    rw [← State.tokens_advance] at hleft
    refine hleft.append Iff.rfl hcall ?_
    rintro us vs ⟨m, -, hnext, hus⟩ ⟨lp, es, as, rfl, hlp, ⟨ts, rp, hts, hrp, rfl⟩, rfl⟩
    rw [State.tokens_advance, hparen] at hnext
    refine ⟨.call, Nat.le_trans hinner (by simp), Level.rank_ofKind_le _, ?_⟩
    exact .call (Nat.le_refl _) (hus.weaken hnext) hlp hts hrp
  · have hpositive : Level.lowest < Level.ofKind (leadKind s.ahead) :=
      Nat.lt_of_le_of_lt (Nat.zero_le _) hjoin
    have hop := Level.mem_operators_ofKind hpositive hparen
    rw [← State.tokens_advance] at hop
    refine (binary_sound hsub left s.advance hop).mono ?_ (fun _ h => h) id
    intro longer s' hbinary
    refine ⟨?_, fun _ _ h => h⟩
    rw [← State.tokens_advance] at hleft hjoin
    have hrank := (Level.rank_of_mem_operators hop).2
    refine hleft.append Iff.rfl hbinary ?_
    rintro us vs ⟨m, -, hnext, hus⟩ ⟨op, right, rs, rfl, hop, hrs, rfl⟩
    refine ⟨_, Level.inner_le_of_lt hjoin (Nat.lt_trans hjoin hrank), hrs.2, ?_⟩
    exact .binary (Nat.le_refl _) (hus.weaken hnext) hop hrs.1
  · refine hleft.mono ?_
    rintro ws ⟨m, hm, -, hws⟩
    exact ⟨hws.weaken hm, Nat.not_lt.mp hstop⟩

end Rules

/-- Every expression that is read has a derivation. -/
theorem expression_sound {brace : Token} (hbrace : brace.kind = .rbrace) (mode : Mode)
    (bound : Nat) :
    ∀ level s, level ≠ .call →
      Sound brace mode (ExprTokens mode level) (expression bound level) s := by
  induction bound with
  | zero => exact fun _ _ _ => trivial
  | succ bound ih =>
      intro level s hlevel
      refine sound_traced fun s₀ _ => ?_
      rw [Sound, satisfies_bind]
      refine (operand_sound ih hbrace s₀).mono ?_ (fun _ h => h) id
      intro left s₁ hleft
      have hinner : level.inner.rank ≤ Level.unary.rank := Level.inner_le_unary hlevel
      refine satisfies_iterate _ _ (operatorRound_sound ih hlevel) bound left s₁ (hleft.mono ?_)
      rintro ws ⟨m, hm, hnext, hws⟩
      exact ⟨m, Nat.le_trans hinner hm, hnext, hws⟩

theorem program_sound {brace : Token} (hbrace : brace.kind = .rbrace) (mode : Mode) (bound : Nat)
    (s : State) :
    (program bound s).Satisfies
      (fun p s' => leadKind s'.tokens = .eof ∧
        Reads brace mode (Derives mode (.stmts p.stmts)) s s' s'.tokens)
      (fun s' => ¬ s'.Clean) True := by
  simp only [program, satisfies_silent, satisfies_bind, satisfies_pure]
  have hexpr := expression_sound hbrace mode bound
  refine (statements_sound hexpr hbrace _ s).mono ?_ (fun _ h => h) id
  rintro ss s' ⟨hstop, hread⟩
  exact ⟨of_decide_eq_true hstop, hread⟩

/-- Whatever is found wrong, what is read has a derivation in the lenient mode from the tokens up to
the first end token among them, with closing braces after them that stand for the end. -/
theorem parse_derives_lenient (input : Token.Stream) (tracing : Bool) {brace : Token}
    (hbrace : brace.kind = .rbrace) :
    ∃ used k, used <+: input.items ∧
      Derives .lenient (.stmts (parse input tracing).program.stmts)
        (used ++ List.replicate k brace) := by
  obtain ⟨p, s, hfound, hparse⟩ := parse_eq input tracing
  obtain ⟨-, hread⟩ := (program_sound hbrace .lenient _ _).of_found hfound
  obtain ⟨ws, ⟨used, k, hused, rfl, -⟩, hws⟩ := hread.2 (.inl rfl)
  rw [hparse]
  exact ⟨used, k, ⟨s.tokens, hused.symm⟩, hws⟩

/-- If nothing is found wrong, what is read has a derivation from all tokens, with closing braces
after them that stand for the end. -/
theorem parse_derives_strict {input : Token.Stream} {tracing : Bool} {brace : Token}
    (hbrace : brace.kind = .rbrace) (hend : ∀ t ∈ input.items, t.kind ≠ .eof)
    (hfaults : (parse input tracing).faults = []) :
    ∃ k, Derives .strict (.stmts (parse input tracing).program.stmts)
      (input.items ++ List.replicate k brace) := by
  obtain ⟨p, s, hfound, hparse⟩ := parse_eq input tracing
  rw [hparse] at hfaults ⊢
  have hclean : s.Clean := List.reverse_eq_nil_iff.mp hfaults
  obtain ⟨heof, hread⟩ := (program_sound hbrace .strict _ _).of_found hfound
  obtain ⟨ws, hspan, hws⟩ := hread.2 (.inr ⟨hend, hclean⟩)
  have hproper : s.Proper := fun t ht => hend t (hspan.subset t ht)
  rw [hproper.tokens_eq_nil heof] at hspan
  obtain ⟨k, rfl⟩ := hspan.eq_append_replicate
  exact ⟨k, hws⟩

/-- A list of tokens in which nothing is found wrong is derived as the program that is read from
it, up to closing braces that are missing at its end. In particular the program holds all tokens
but separators, each once and in their order. -/
theorem parse_derives (input : Token.Stream) (tracing : Bool) (brace : Token)
    (hbrace : brace.kind = .rbrace) (hend : ∀ t ∈ input.items, t.kind ≠ .eof)
    (hfaults : (parse input tracing).faults = []) :
    (∃ k, Derives .strict (.stmts (parse input tracing).program.stmts)
        (input.items ++ List.replicate k brace)) ∧
      contentTokens (parse input tracing).program.tokens = contentTokens input.items := by
  obtain ⟨k, hderives⟩ := parse_derives_strict hbrace hend hfaults
  have hsep : brace.kind ∈ separators := by simp [hbrace, separators]
  have hcontent := hderives.contentTokens_eq
  rw [contentTokens_append_replicate hsep] at hcontent
  exact ⟨⟨k, hderives⟩, hcontent⟩

/-- Both blocks are open at the end of this source. -/
theorem parse_derives_open_blocks :
    let input := Token.Stream.ofSource
      (utf8 "let f = fn(x, y) \x7b if (x < y) \x7b return -x * (y + 1)")
    (∀ t ∈ input.items, t.kind ≠ .eof) ∧ (parse input false).faults = [] ∧
      (∃ k, Derives .strict (.stmts (parse input false).program.stmts)
        (input.items ++ List.replicate k ⟨.rbrace, utf8 "\x7d", .start⟩)) ∧
      contentTokens (parse input false).program.tokens = contentTokens input.items := by
  intro input
  have hend : ∀ t ∈ input.items, t.kind ≠ .eof := by decide +kernel
  have hfaults : (parse input false).faults = [] := by decide +kernel
  exact ⟨hend, hfaults, parse_derives input false _ rfl hend hfaults⟩

end Monkey.Grammar
