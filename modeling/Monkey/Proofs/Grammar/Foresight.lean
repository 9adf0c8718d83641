import Monkey.Proofs.Grammar.Expectation
import Monkey.Proofs.Grammar.Halting

/-!
# Reading as expected

While a stream is read, what is going to come of it does not change: at every point it is what the
first fault so far says, or else the outlook of the tokens that are left, where the expectations are
those of the rules that have not come back yet. `State.Awaits v K` says that `v` is going to come of
the input if `K` is expected from the current token on, and `State.AwaitsNext v K` the same from
the token after it on.

`Tracks v P r Q` is the statement that is taken through the rules. A rule that begins where its own
expectations come first and then `K` ends where `K` is expected, for every `K`. If it fails, the
first fault has been recorded by then, and `v` is settled.

Blocks that end with the input show in a trace, as the notes of blocks that end at the end token.
-/

namespace Monkey.Grammar

open Rule Outcome Expectation

/-- Whether the note says that a block ended with the input. -/
def TraceNote.endsOpen (n : TraceNote) : Bool :=
  !n.begins && n.rule = .block && n.token.kind = .eof

namespace State

/-- How many blocks have ended with the input, as far as it was noted. -/
def openEnds (s : State) : Nat := s.notes.countP TraceNote.endsOpen

/-- How many blocks will have ended with the input if there are `n` more. -/
def tally (s : State) (n : Nat) : Nat := s.openEnds + if s.tracing then n else 0

/-- What is going to come of the input if the tokens `ts` are left and `K` is expected of them. -/
def foresees (s : State) (K : List Expectation) (ts : List Token) : Except Fault Nat :=
  (s.faults.getLast?).elim ((outlook K ts).map s.tally) .error

def Awaits (v : Except Fault Nat) (K : List Expectation) (s : State) : Prop :=
  s.Proper ∧ s.foresees K s.tokens = v

def AwaitsNext (v : Except Fault Nat) (K : List Expectation) (s : State) : Prop :=
  s.advance.Awaits v K

/-- The first fault has been recorded, and `v` is that fault. -/
def Settled (v : Except Fault Nat) (s : State) : Prop :=
  s.advance.Proper ∧ ∃ f, s.faults.getLast? = some f ∧ v = .error f

theorem Proper.advance {s : State} (h : s.Proper) : s.advance.Proper := by
  intro t ht
  rw [tokens_advance] at ht
  exact h t (List.mem_of_mem_tail ht)

section Foresees

variable {s : State} {v : Except Fault Nat} {x : Expectation} {K K' rest : List Expectation}
  {ts ts' : List Token} {f : Fault}

theorem foresees_congr (h : outlook K ts = outlook K' ts') :
    s.foresees K ts = s.foresees K' ts' := by
  rw [foresees, foresees, h]

/-- Once a fault has been recorded that was foreseen, nothing more is open. -/
theorem exists_of_foresees (h : s.foresees K ts = v) (hf : outlook K ts = .error f) :
    ∃ g, (s.report f).faults.getLast? = some g ∧ v = .error g := by
  rw [foresees, hf] at h
  rw [faults_report]
  cases hs : s.faults with
  | nil =>
      rw [hs] at h
      exact ⟨f, rfl, h.symm⟩
  | cons g gs =>
      rw [hs, List.getLast?_cons] at h
      exact ⟨_, by rw [List.getLast?_cons_cons, List.getLast?_cons], h.symm⟩

theorem Awaits.congr (h : s.Awaits v K) (heq : outlook K s.tokens = outlook K' s.tokens) :
    s.Awaits v K' :=
  ⟨h.1, by rw [← foresees_congr heq, h.2]⟩

theorem Awaits.settled (h : s.Awaits v K) (hf : outlook K s.tokens = .error f) :
    (s.report f).Settled v :=
  ⟨h.1.advance, exists_of_foresees h.2 hf⟩

theorem Awaits.takes (h : s.Awaits v (x :: K)) (hmeet : x.meet s.input.current = .takes rest) :
    s.AwaitsNext v (rest ++ K) := by
  rw [meet_current] at hmeet
  refine ⟨h.1.advance, ?_⟩
  rw [tokens_advance, ← h.2]
  exact foresees_congr (outlook_of_takes hmeet).symm

theorem Awaits.done (h : s.Awaits v (x :: K)) (hmeet : x.meet s.input.current = .takes []) :
    s.AwaitsNext v K :=
  h.takes hmeet

theorem Awaits.fails (h : s.Awaits v (x :: K)) (hmeet : x.meet s.input.current = .fails f) :
    (s.report f).Settled v := by
  rw [meet_current] at hmeet
  exact h.settled (outlook_of_fails hmeet)

theorem Awaits.passes (h : s.Awaits v (x :: K)) (hx : x.openBlocks = 0)
    (hmeet : x.meet s.input.current = .passes) : s.Awaits v K := by
  rw [meet_current] at hmeet
  exact h.congr (outlook_of_passes hmeet (.inl hx))

theorem AwaitsNext.settled (h : s.AwaitsNext v (x :: K))
    (hmeet : x.meet s.input.peek = .fails f) : (s.report f).Settled v :=
  ⟨h.1, (h.fails hmeet).2⟩

theorem Settled.awaitsNext (h : s.Settled v) (K : List Expectation) : s.AwaitsNext v K := by
  obtain ⟨hproper, f, hf, rfl⟩ := h
  refine ⟨hproper, ?_⟩
  rw [foresees, faults_advance, hf]
  rfl

end Foresees

section Notes

variable {s : State} {v : Except Fault Nat} {K : List Expectation} (name : RuleName)

theorem tracing_enter : (s.enter name).tracing = s.tracing := by
  unfold enter
  split <;> rfl

theorem tracing_leave : (s.leave name).tracing = s.tracing := by
  unfold leave
  split <;> rfl

theorem openEnds_enter : (s.enter name).openEnds = s.openEnds := by
  unfold enter openEnds
  split
  · rw [List.countP_cons_of_neg]
    simp [TraceNote.endsOpen]
  · rfl

theorem openEnds_leave (h : name ≠ .block ∨ s.input.current.kind ≠ .eof) :
    (s.leave name).openEnds = s.openEnds := by
  unfold leave openEnds
  split
  · rw [List.countP_cons_of_neg]
    simpa [TraceNote.endsOpen, imp_iff_not_or] using h
  · rfl

theorem tally_enter : (s.enter name).tally = s.tally := by
  funext n
  rw [tally, tally, openEnds_enter, tracing_enter]

theorem tally_leave (h : name ≠ .block ∨ s.input.current.kind ≠ .eof) :
    (s.leave name).tally = s.tally := by
  funext n
  rw [tally, tally, openEnds_leave name h, tracing_leave]

/-- The block at the end of which the input ends is counted when its rule comes back. -/
theorem tally_leave_block (h : s.input.current.kind = .eof) (n : Nat) :
    (s.leave .block).tally n = s.tally (1 + n) := by
  unfold leave tally openEnds
  split
  · next htracing =>
      rw [List.countP_cons_of_pos (by simp [TraceNote.endsOpen, h])]
      omega
  · rfl

theorem foresees_enter (K : List Expectation) (ts : List Token) :
    (s.enter name).foresees K ts = s.foresees K ts := by
  rw [foresees, foresees, faults_enter, tally_enter]

theorem foresees_leave (h : name ≠ .block ∨ s.input.current.kind ≠ .eof) (K : List Expectation)
    (ts : List Token) : (s.leave name).foresees K ts = s.foresees K ts := by
  rw [foresees, foresees, faults_leave, tally_leave name h]

theorem Awaits.enter (h : s.Awaits v K) : (s.enter name).Awaits v K := by
  refine ⟨by simpa using h.1, ?_⟩
  rw [foresees_enter, tokens_enter, h.2]

theorem AwaitsNext.enter (h : s.AwaitsNext v K) : (s.enter name).AwaitsNext v K := by
  refine ⟨?_, ?_⟩
  · simpa [Proper] using h.1
  · rw [tokens_advance, ahead_enter, ← tokens_advance, ← h.2]
    exact foresees_enter name K _

theorem AwaitsNext.leave (h : s.AwaitsNext v K)
    (hname : name ≠ .block ∨ s.input.current.kind ≠ .eof) : (s.leave name).AwaitsNext v K := by
  refine ⟨?_, ?_⟩
  · simpa [Proper] using h.1
  · rw [tokens_advance, ahead_leave, ← tokens_advance, ← h.2]
    exact foresees_leave name hname K _

/-- A block that ends with the input leaves the expectations after it to the end of the input. -/
theorem Awaits.leave_block (h : s.Awaits v (.block :: K)) (hnil : s.tokens = []) :
    (s.leave .block).AwaitsNext v K := by
  have hahead : s.ahead = [] := by rw [ahead, hnil, List.tail_nil]
  have heof : s.input.current.kind = .eof := by rw [current_kind, hnil, leadKind_nil]
  have htally : (s.leave .block).tally = s.tally ∘ (1 + ·) := funext (tally_leave_block heof)
  refine ⟨by simp [Proper, hahead], ?_⟩
  rw [tokens_advance, ahead_leave, hahead, ← h.2, hnil]
  change ((s.leave .block).faults.getLast?).elim ((closing K).map (s.leave .block).tally) _ =
    (s.faults.getLast?).elim (((closing K).map (1 + ·)).map s.tally) _
  rw [faults_leave, htally]
  cases closing K <;> rfl

theorem Settled.leave (h : s.Settled v) : (s.leave name).Settled v := by
  obtain ⟨hproper, f, hf, rfl⟩ := h
  exact ⟨by simpa [Proper] using hproper, f, by rw [faults_leave, hf], rfl⟩

end Notes

end State

def Tracks {α : Type} (v : Except Fault Nat) (P : State → Prop) (r : Rule α)
    (Q : α → State → Prop) : Prop :=
  ∀ s, P s → (r s).Satisfies Q (State.Settled v) True

variable {v : Except Fault Nat} {K : List Expectation}

section Combinators

variable {α β : Type} {P : State → Prop} {Q : α → State → Prop} {x : Expectation}
  {yes : List Expectation}

theorem tracks_pure {a : α} (h : ∀ s, P s → Q a s) : Tracks v P (pure a) Q := h

theorem tracks_bind {r : Rule β} {f : β → Rule α} {M : β → State → Prop} (hr : Tracks v P r M)
    (hf : ∀ b, Tracks v (M b) (f b) Q) : Tracks v P (r >>= f) Q := by
  intro s hs
  rw [satisfies_bind]
  exact (hr s hs).mono (fun b s' h => hf b s' h) (fun _ h => h) id

theorem tracks_current {f : Token → Rule α} (hf : ∀ t, Tracks v P (f t) Q) :
    Tracks v P (current >>= f) Q :=
  fun s hs => hf s.input.current s hs

theorem tracks_advance {f : Unit → Rule α} (hf : Tracks v (State.Awaits v K) (f ()) Q) :
    Tracks v (State.AwaitsNext v K) (advance >>= f) Q :=
  fun s hs => hf s.advance hs

theorem tracks_expect {kind : Token.Kind} {f : Token → Rule α}
    (hf : ∀ t, Tracks v (State.AwaitsNext v K) (f t) Q) :
    Tracks v (State.AwaitsNext v (.token kind :: K)) (expect kind >>= f) Q := by
  intro s hs
  rw [satisfies_bind, satisfies_expect, ← State.peek_kind]
  refine ⟨fun hkind => hf _ s.advance ?_, fun hkind => ?_⟩
  · exact hs.takes (if_pos hkind)
  · exact hs.settled (if_neg hkind)

/-- A token that is taken if it comes, where something else is expected otherwise. -/
theorem tracks_accept {kind : Token.Kind} {f : Bool → Rule α} (no : List Expectation)
    (htaken : ∀ t : Token, t.kind = kind → x.meet t = .takes yes)
    (hother : ∀ ts, leadKind ts ≠ kind → outlook (x :: K) ts = outlook no ts)
    (hyes : Tracks v (State.AwaitsNext v (yes ++ K)) (f true) Q)
    (hno : Tracks v (State.AwaitsNext v no) (f false) Q) :
    Tracks v (State.AwaitsNext v (x :: K)) (accept kind >>= f) Q := by
  intro s hs
  rw [satisfies_bind, satisfies_accept]
  refine ⟨fun hkind => hyes s.advance ?_, fun hkind => hno s ?_⟩
  · rw [← State.peek_kind] at hkind
    exact hs.takes (htaken _ hkind)
  · rw [← State.tokens_advance] at hkind
    exact hs.congr (hother _ hkind)

theorem tracks_traced {name : RuleName} (hname : name ≠ .block) {r : Rule α}
    (hP : ∀ s, P s → P (s.enter name)) (hr : Tracks v P r fun _ => State.AwaitsNext v K) :
    Tracks v P (traced name r) fun _ => State.AwaitsNext v K := by
  intro s hs
  rw [satisfies_traced]
  exact (hr _ (hP s hs)).mono (fun _ _ h => h.leave name (.inl hname)) (fun _ h => h.leave name) id

theorem tracks_silent {r : Rule α} (hr : Tracks v P r Q) : Tracks v P (silent r) Q := hr

theorem tracks_attempt {r : Rule Stmt} (hr : Tracks v P r fun _ => State.AwaitsNext v K) :
    Tracks v P (attempt r) fun _ => State.AwaitsNext v K := by
  intro s hs
  rw [satisfies_attempt]
  exact (hr s hs).mono (fun _ _ h => h) (fun _ h => h.awaitsNext K) id

theorem tracks_iterate {round : β → Rule (β ⊕ α)}
    (hround : ∀ b, Tracks v P (round b) (Sum.elim (fun _ => P) Q)) (bound : Nat) (b : β) :
    Tracks v P (iterate round bound b) Q := by
  intro s hs
  refine satisfies_iterate (fun _ => P) (fun _ _ => Q) ?_ bound b s hs
  intro b s₁ hs₁
  refine (hround b s₁ hs₁).mono ?_ (fun _ h => h) id
  intro y s₂ hy
  cases y with
  | inl b' => exact ⟨hy, fun _ _ h => h⟩
  | inr a => exact hy

end Combinators

/-- Where one expectation does with the next token what another one does, and more comes after
it. -/
theorem outlook_andThen (x y : Expectation) (rest : List Expectation) {ts : List Token}
    (h : x.meet (leadToken ts) = (y.meet (leadToken ts)).andThen rest)
    (hy : y.meet (leadToken ts) ≠ .passes) :
    outlook (x :: K) ts = outlook (y :: (rest ++ K)) ts := by
  cases hmeet : y.meet (leadToken ts) with
  | takes taken =>
      rw [hmeet, Reaction.andThen] at h
      rw [outlook_of_takes h, outlook_of_takes hmeet, List.append_assoc]
  | passes => exact absurd hmeet hy
  | fails f =>
      rw [hmeet, Reaction.andThen] at h
      rw [outlook_of_fails h, outlook_of_fails hmeet]

@[simp] theorem kind_leadToken (ts : List Token) : (leadToken ts).kind = leadKind ts := by
  cases ts <;> rfl

section Rules

variable {sub : ExprRule} {bound : Nat}

/-- The rule for expressions reads what is expected of an expression. -/
def TracksExprs (v : Except Fault Nat) (sub : ExprRule) : Prop :=
  ∀ level K, Tracks v (State.Awaits v (.operand :: .operators level :: K)) (sub level)
    fun _ => State.AwaitsNext v K

theorem tracks_semicolon {α : Type} (a : α) :
    Tracks v (State.AwaitsNext v (.semicolon :: K)) (accept .semicolon >>= fun _ => pure a)
      fun _ => State.AwaitsNext v K := by
  refine tracks_accept _ (fun t ht => if_pos ht) (fun ts hts => ?_) (tracks_pure fun _ h => h)
    (tracks_pure fun _ h => h)
  exact outlook_of_passes (if_neg (by simpa using hts)) (.inl rfl)

theorem tracks_binding (hsub : TracksExprs v sub) :
    Tracks v (State.AwaitsNext v (bindingRest ++ K)) (binding sub)
      fun _ => State.AwaitsNext v K := by
  refine tracks_traced (by decide) (fun _ h => h.enter _) <| tracks_current fun token => ?_
  refine tracks_expect fun name => tracks_expect fun _ => tracks_advance ?_
  exact tracks_bind (hsub .lowest _) fun value => tracks_semicolon _

theorem tracks_returning (hsub : TracksExprs v sub) :
    Tracks v (State.AwaitsNext v (returnRest ++ K)) (returning sub)
      fun _ => State.AwaitsNext v K := by
  refine tracks_traced (by decide) (fun _ h => h.enter _) <| tracks_current fun token => ?_
  exact tracks_advance <| tracks_bind (hsub .lowest _) fun value => tracks_semicolon _

theorem tracks_exprStmt (hsub : TracksExprs v sub) :
    Tracks v (State.Awaits v (.operand :: .operators .lowest :: .semicolon :: K))
      (exprStmt sub) fun _ => State.AwaitsNext v K := by
  refine tracks_traced (by decide) (fun _ h => h.enter _) <| tracks_current fun token => ?_
  exact tracks_bind (hsub .lowest _) fun value => tracks_semicolon _

theorem tracks_statement (hsub : TracksExprs v sub) :
    Tracks v (State.Awaits v (.statement :: K)) (statement sub) fun _ => State.AwaitsNext v K := by
  intro s hs
  simp only [statement, satisfies_silent, satisfies_bind, satisfies_current]
  have hexpr (hreaction : statementReaction (leadToken s.tokens) =
      (operandReaction (leadToken s.tokens)).andThen [.operators .lowest, .semicolon]) :
      (exprStmt sub s).Satisfies (fun _ => State.AwaitsNext v K) (State.Settled v) True :=
    tracks_exprStmt hsub s
      (hs.congr (outlook_andThen .statement .operand _ hreaction (operandReaction_ne_passes _)))
  cases h : s.input.current.kind with
  | «let» => exact tracks_binding hsub s (hs.takes (by simp [meet, statementReaction, h]))
  | «return» => exact tracks_returning hsub s (hs.takes (by simp [meet, statementReaction, h]))
  | _ => exact hexpr (by simp [statementReaction, ← State.current_kind, h])

/-- A list of statements, which `x` stands for, stops where `x` does not expect another one. -/
theorem tracks_statements {x : Expectation} {stop : Token.Kind → Bool}
    (hgo : ∀ ts, stop (leadKind ts) = false →
      outlook (x :: K) ts = outlook (.statement :: x :: K) ts)
    (hsub : TracksExprs v sub) (bound : Nat) :
    Tracks v (State.Awaits v (x :: K)) (statements sub bound stop)
      fun _ s' => s'.Awaits v (x :: K) ∧ stop (leadKind s'.tokens) := by
  refine tracks_iterate (fun done s hs => ?_) bound []
  simp only [statementRound, satisfies_bind, satisfies_current, satisfies_ite, satisfies_pure,
    satisfies_advance, State.current_kind]
  refine ⟨fun hstop => ⟨hs, hstop⟩, fun hstop => ?_⟩
  have hstmt := tracks_attempt (tracks_statement hsub) s
    (hs.congr (hgo _ (Bool.eq_false_iff.mpr hstop)))
  exact hstmt.mono (fun _ _ h => h) (fun _ h => h) id

theorem outlook_block {ts : List Token} (h : closesBlock (leadKind ts) = false) :
    outlook (.block :: K) ts = outlook (.statement :: .block :: K) ts := by
  simp only [closesBlock, Bool.or_eq_false_iff, decide_eq_false_iff_not] at h
  refine outlook_andThen .block .statement [.block] ?_ (statementReaction_ne_passes _)
  simp [meet, h.1, h.2]

theorem outlook_program {ts : List Token} (h : leadKind ts ≠ .eof) :
    outlook (.program :: K) ts = outlook (.statement :: .program :: K) ts := by
  refine outlook_andThen .program .statement [.program] ?_ (statementReaction_ne_passes _)
  simp [meet, h]

theorem tracks_block (hsub : TracksExprs v sub) (bound : Nat) :
    Tracks v (State.AwaitsNext v (.block :: K)) (block sub bound)
      fun _ => State.AwaitsNext v K := by
  intro s hs
  simp only [block, satisfies_traced, satisfies_bind, satisfies_current, satisfies_advance,
    satisfies_pure]
  refine (tracks_statements (fun ts => outlook_block) hsub bound _ (hs.enter .block)).mono ?_
    (fun _ h => h.leave _) id
  rintro stmts s' ⟨hs', hstop⟩
  simp only [closesBlock, Bool.or_eq_true, decide_eq_true_eq] at hstop
  rcases hstop with hclose | heof
  · rw [← State.current_kind] at hclose
    exact (hs'.done (if_pos hclose)).leave _ (.inr (by simp [hclose]))
  · exact hs'.leave_block (State.Proper.tokens_eq_nil hs'.1 heof)

theorem tracks_unary (hsub : TracksExprs v sub) :
    Tracks v (State.AwaitsNext v (signRest ++ K)) (unary sub)
      fun _ => State.AwaitsNext v K := by
  refine tracks_traced (by decide) (fun _ h => h.enter _) <| tracks_current fun token => ?_
  exact tracks_advance <| tracks_bind (hsub .unary _) fun right => tracks_pure fun _ h => h

theorem tracks_group (hsub : TracksExprs v sub) :
    Tracks v (State.AwaitsNext v (groupRest ++ K)) (group sub)
      fun _ => State.AwaitsNext v K := by
  refine tracks_silent <| tracks_advance <| tracks_bind (hsub .lowest _) fun inner => ?_
  exact tracks_expect fun _ => tracks_pure fun _ h => h

theorem tracks_cond (hsub : TracksExprs v sub) (bound : Nat) :
    Tracks v (State.AwaitsNext v (condRest ++ K)) (cond sub bound)
      fun _ => State.AwaitsNext v K := by
  refine tracks_traced (by decide) (fun _ h => h.enter _) <| tracks_current fun token => ?_
  refine tracks_expect fun _ => tracks_advance <| tracks_bind (hsub .lowest _) fun condition => ?_
  refine tracks_expect fun _ => tracks_expect fun _ => ?_
  refine tracks_bind (tracks_block hsub bound) fun consequence => ?_
  refine tracks_accept _ (fun t ht => if_pos ht) (fun ts hts => ?_) ?_ (tracks_pure fun _ h => h)
  · exact outlook_of_passes (if_neg (by simpa using hts)) (.inl rfl)
  · refine tracks_expect fun _ => ?_
    exact tracks_bind (tracks_block hsub bound) fun alternative => tracks_pure fun _ h => h

theorem tracks_params (bound : Nat) :
    Tracks v (State.AwaitsNext v (.params :: K)) (params bound) fun _ => State.AwaitsNext v K := by
  apply tracks_silent
  refine tracks_accept (.token .ident :: .moreParams :: K) (fun t ht => if_pos ht)
    (fun ts hts => ?_) (tracks_pure fun _ h => h) ?_
  · refine outlook_andThen .params (.token .ident) [.moreParams] ?_ ?_
    · by_cases hname : leadKind ts = .ident <;> simp [meet, hts, hname, Reaction.andThen]
    · by_cases hname : leadKind ts = .ident <;> simp [meet, hname]
  · refine tracks_expect fun name => tracks_iterate (fun done => ?_) bound _
    refine tracks_accept (.token .rparen :: K) (fun t ht => if_pos ht) (fun ts hts => ?_) ?_ ?_
    · refine outlook_andThen .moreParams (.token .rparen) [] ?_ ?_
      · by_cases hclose : leadKind ts = .rparen <;> simp [meet, hts, hclose, Reaction.andThen]
      · by_cases hclose : leadKind ts = .rparen <;> simp [meet, hclose]
    · exact tracks_expect fun name => tracks_pure fun _ h => h
    · exact tracks_expect fun _ => tracks_pure fun _ h => h

theorem tracks_function (bound : Nat) (hsub : TracksExprs v sub) :
    Tracks v (State.AwaitsNext v (functionRest ++ K)) (function sub bound)
      fun _ => State.AwaitsNext v K := by
  refine tracks_traced (by decide) (fun _ h => h.enter _) <| tracks_current fun token => ?_
  refine tracks_expect fun _ => tracks_bind (tracks_params bound) fun ids => ?_
  refine tracks_expect fun _ => ?_
  exact tracks_bind (tracks_block hsub bound) fun body => tracks_pure fun _ h => h

theorem tracks_args (hsub : TracksExprs v sub) (bound : Nat) :
    Tracks v (State.AwaitsNext v (.args :: K)) (args sub bound) fun _ => State.AwaitsNext v K := by
  apply tracks_silent
  refine tracks_accept (.operand :: .operators .lowest :: .moreArgs :: K)
    (fun t ht => if_pos ht) (fun ts hts => ?_) (tracks_pure fun _ h => h) ?_
  · refine outlook_andThen .args .operand [.operators .lowest, .moreArgs] ?_
      (operandReaction_ne_passes _)
    simp [meet, hts]
  · refine tracks_advance <| tracks_bind (hsub .lowest _) fun arg => ?_
    refine tracks_iterate (fun done => ?_) bound _
    refine tracks_accept (.token .rparen :: K) (fun t ht => if_pos ht) (fun ts hts => ?_) ?_ ?_
    · refine outlook_andThen .moreArgs (.token .rparen) [] ?_ ?_
      · by_cases hclose : leadKind ts = .rparen <;> simp [meet, hts, hclose, Reaction.andThen]
      · by_cases hclose : leadKind ts = .rparen <;> simp [meet, hclose]
    · exact tracks_advance <| tracks_bind (hsub .lowest _) fun arg => tracks_pure fun _ h => h
    · exact tracks_expect fun _ => tracks_pure fun _ h => h

theorem tracks_call (hsub : TracksExprs v sub) (bound : Nat) (callee : Expr) :
    Tracks v (State.AwaitsNext v (.args :: K)) (call sub bound callee)
      fun _ => State.AwaitsNext v K := by
  refine tracks_traced (by decide) (fun _ h => h.enter _) <| tracks_current fun token => ?_
  exact tracks_bind (tracks_args hsub bound) fun list => tracks_pure fun _ h => h

theorem tracks_binary (hsub : TracksExprs v sub) (left : Expr) (kind : Token.Kind) :
    Tracks v (fun s => s.input.current.kind = kind ∧
      s.AwaitsNext v (.operand :: .operators (Level.ofKind kind) :: K)) (binary sub left)
      fun _ => State.AwaitsNext v K := by
  refine tracks_traced (by decide) (fun _ h => ⟨by rw [State.input_enter, h.1], h.2.enter _⟩) ?_
  rintro s ⟨rfl, hs⟩
  simp only [satisfies_bind, satisfies_current, satisfies_advance, satisfies_pure]
  exact hsub _ K s.advance hs

theorem tracks_integer :
    Tracks v (fun s => s.input.current.kind = .int ∧ s.Awaits v (.operand :: K)) integer
      fun _ => State.AwaitsNext v K := by
  refine tracks_traced (by decide) (fun _ h => ⟨by rw [State.input_enter, h.1], h.2.enter _⟩) ?_
  rintro s ⟨hint, hs⟩
  simp only [satisfies_bind, satisfies_current]
  cases hvalue : Text.Decimal.int64? s.input.current.literal with
  | some value => exact hs.done (by simp [meet, operandReaction, hint, hvalue])
  | none => exact hs.fails (by simp [meet, operandReaction, hint, hvalue])

theorem tracks_operand (hsub : TracksExprs v sub) (bound : Nat) :
    Tracks v (State.Awaits v (.operand :: K)) (operand sub bound)
      fun _ => State.AwaitsNext v K := by
  intro s hs
  simp only [operand, satisfies_bind, satisfies_current]
  cases h : s.input.current.kind with
  | ident => exact hs.done (by simp [meet, operandReaction, h])
  | int => exact tracks_integer s ⟨h, hs⟩
  | bang => exact tracks_unary hsub s (hs.takes (by simp [meet, operandReaction, h]))
  | minus => exact tracks_unary hsub s (hs.takes (by simp [meet, operandReaction, h]))
  | «true» => exact hs.done (by simp [meet, operandReaction, h])
  | «false» => exact hs.done (by simp [meet, operandReaction, h])
  | lparen => exact tracks_group hsub s (hs.takes (by simp [meet, operandReaction, h]))
  | «if» => exact tracks_cond hsub bound s (hs.takes (by simp [meet, operandReaction, h]))
  | function => exact tracks_function bound hsub s (hs.takes (by simp [meet, operandReaction, h]))
  | _ => exact hs.fails (by simp [meet, operandReaction, h])

theorem tracks_operatorRound (hsub : TracksExprs v sub) (bound : Nat) (level : Level)
    (left : Expr) :
    Tracks v (State.AwaitsNext v (.operators level :: K)) (operatorRound sub bound level left)
      (Sum.elim (fun _ => State.AwaitsNext v (.operators level :: K))
        fun _ => State.AwaitsNext v K) := by
  intro s hs
  simp only [operatorRound, satisfies_bind, satisfies_peek, satisfies_ite, satisfies_advance,
    satisfies_pure, Sum.elim_inl, Sum.elim_inr]
  refine ⟨fun hjoin => ⟨fun hparen => ?_, fun hparen => ?_⟩, fun hstop => ?_⟩
  · have hargs : s.advance.AwaitsNext v ([.args, .operators level] ++ K) :=
      hs.takes (by simp [meet, ← hparen, hjoin])
    exact tracks_call hsub bound left s.advance hargs
  · have hright : s.advance.AwaitsNext v
        ([.operand, .operators (Level.ofKind s.input.peek.kind), .operators level] ++ K) :=
      hs.takes (by simp [meet, hparen, hjoin])
    exact tracks_binary hsub left _ s.advance ⟨rfl, hright⟩
  · exact hs.passes rfl (if_neg hstop)

end Rules

theorem tracksExprs_expression (v : Except Fault Nat) (bound : Nat) :
    TracksExprs v (expression bound) := by
  induction bound with
  | zero => exact fun _ _ _ _ => trivial
  | succ bound ih =>
      intro level K
      refine tracks_traced (by decide) (fun _ h => h.enter _) ?_
      refine tracks_bind (tracks_operand ih bound) fun left => ?_
      exact tracks_iterate (tracks_operatorRound ih bound level) bound left

theorem tracks_program (v : Except Fault Nat) (bound : Nat) :
    Tracks v (State.Awaits v [.program]) (program bound)
      fun _ s' => (s'.faults.getLast?).elim (.ok s'.openEnds) .error = v := by
  have hgo : ∀ ts, decide (leadKind ts = .eof) = false →
      outlook [.program] ts = outlook [.statement, .program] ts :=
    fun ts hts => outlook_program (of_decide_eq_false hts)
  apply tracks_silent
  refine tracks_bind (tracks_statements hgo (tracksExprs_expression v bound) bound) fun stmts => ?_
  refine tracks_pure ?_
  rintro s' ⟨⟨hproper, hforeseen⟩, heof⟩
  rw [hproper.tokens_eq_nil (of_decide_eq_true heof)] at hforeseen
  have htally : s'.tally 0 = s'.openEnds := by simp [State.tally]
  rw [← hforeseen, ← htally]
  rfl

/-- How many blocks have ended with the input, as far as it was noted. -/
def Parsed.openEnds (p : Parsed) : Nat := p.trace.countP TraceNote.endsOpen

/-- What comes of reading a stream is its outlook: the first fault, or else the number of blocks
that end with the input. -/
theorem parse_foreseen (input : Token.Stream) (tracing : Bool)
    (hend : ∀ t ∈ input.items, t.kind ≠ .eof) :
    ((parse input tracing).faults.head?).elim (.ok (parse input tracing).openEnds) .error =
      (outlook [.program] input.items).map fun n => if tracing then n else 0 := by
  obtain ⟨p, s, hfound, hparse⟩ := parse_eq input tracing
  have hstart : (State.ofStream tracing input).Awaits
      ((outlook [.program] input.items).map fun n => if tracing then n else 0) [.program] := by
    refine ⟨hend, congrArg (Except.map · (outlook [.program] input.items)) ?_⟩
    funext n
    exact Nat.zero_add _
  rw [← (tracks_program _ (boundFor input) _ hstart).of_found hfound, hparse, Parsed.openEnds,
    List.head?_reverse, List.countP_reverse, State.openEnds]

section Faults

variable {input : Token.Stream} {tracing : Bool} (hend : ∀ t ∈ input.items, t.kind ≠ .eof)

include hend

/-- The first fault is the one that was foreseen. -/
theorem exists_faults_eq {f : Fault} (h : outlook [.program] input.items = .error f) :
    ∃ more, (parse input tracing).faults = f :: more := by
  have hforeseen := parse_foreseen input tracing hend
  rw [h] at hforeseen
  cases hfaults : (parse input tracing).faults with
  | nil =>
      rw [hfaults] at hforeseen
      cases hforeseen
  | cons g more =>
      rw [hfaults] at hforeseen
      cases hforeseen
      exact ⟨more, rfl⟩

theorem faults_ne_nil {f : Fault} (h : outlook [.program] input.items = .error f) :
    (parse input tracing).faults ≠ [] := by
  obtain ⟨more, hfaults⟩ : ∃ more, (parse input tracing).faults = f :: more :=
    exists_faults_eq hend h
  simp [hfaults]

theorem faults_eq_nil {n : Nat} (h : outlook [.program] input.items = .ok n) :
    (parse input tracing).faults = [] := by
  have hforeseen := parse_foreseen input tracing hend
  rw [h] at hforeseen
  cases hfaults : (parse input tracing).faults with
  | nil => rfl
  | cons g more =>
      rw [hfaults] at hforeseen
      cases hforeseen

theorem faults_eq_nil_iff :
    (parse input tracing).faults = [] ↔ ∃ n, outlook [.program] input.items = .ok n := by
  constructor
  · intro h
    cases houtlook : outlook [.program] input.items with
    | ok n => exact ⟨n, rfl⟩
    | error f => exact absurd h (faults_ne_nil hend houtlook)
  · rintro ⟨n, h⟩
    exact faults_eq_nil hend h

theorem openEnds_eq {n : Nat} (h : outlook [.program] input.items = .ok n) :
    (parse input true).openEnds = n := by
  have hforeseen := parse_foreseen input true hend
  rw [h, faults_eq_nil hend h] at hforeseen
  exact Except.ok.inj hforeseen

end Faults

end Monkey.Grammar
