import Monkey.Proofs.Grammar.Completeness
import Monkey.Proofs.Grammar.Parallel
import Monkey.Proofs.Grammar.Soundness
import Monkey.Proofs.Token.Joining
import Monkey.Session.Input

/-!
# Reading two sources as one

If a source is read without a fault and leaves no brace open, then reading is back where it
started when the source ends. With a line feed between them, another source can be put after it
and is read just as by itself, faults included, unless it starts with a token that goes on with
the last statement before it.

That no brace is open can be told from the tokens: in what has a derivation there are as many
closing as opening brackets.
-/

namespace Monkey.Grammar

open Rule Outcome

/-- How many more brackets are opened than closed by the tokens. -/
def opens : List Token → Int
  | [] => 0
  | t :: ts => Session.openWeight t.kind + opens ts

@[simp] theorem opens_nil : opens [] = 0 := rfl

@[simp] theorem opens_cons (t : Token) (ts : List Token) :
    opens (t :: ts) = Session.openWeight t.kind + opens ts := rfl

@[simp] theorem opens_append (ts us : List Token) : opens (ts ++ us) = opens ts + opens us := by
  induction ts with
  | nil => simp
  | cons t ts ih => rw [List.cons_append, opens_cons, opens_cons, ih, Int.add_assoc]

theorem openDepth_eq (source : Bytes) :
    Session.openDepth source = opens (Token.Stream.ofSource source).items := by
  have hfold : ∀ (ts : List Token) (depth : Int),
      ts.foldl (fun depth t => depth + Session.openWeight t.kind) depth = depth + opens ts := by
    intro ts
    induction ts with
    | nil => simp
    | cons t ts ih =>
        intro depth
        rw [List.foldl_cons, ih, opens_cons, Int.add_assoc]
  rw [Session.openDepth, Token.tokens, Token.Stream.drain, hfold]
  simp [Token.Stream.endToken, Session.openWeight]

theorem MoreParams.opens_eq_zero {ids : List Ident} {ts : List Token} (h : MoreParams ids ts) :
    opens ts = 0 := by
  induction h with
  | nil => rfl
  | cons hcomma hname more ih => simp [hcomma, hname, ih, Session.openWeight]

theorem Params.opens_eq_zero {ids : List Ident} {ts : List Token} (h : Params ids ts) :
    opens ts = 0 := by
  cases h with
  | none => rfl
  | some hname more => simp [hname, more.opens_eq_zero, Session.openWeight]

theorem openWeight_of_mem_operators {level : Level} {kind : Token.Kind}
    (h : kind ∈ level.operators) : Session.openWeight kind = 0 := by
  cases level <;> simp [Level.operators] at h <;> rcases h with rfl | rfl <;> rfl

/-- Brackets are closed as often as they are opened. -/
theorem Derives.opens_eq_zero {ph : Phrase} {ts : List Token} (h : Derives .strict ph ts) :
    opens ts = 0 := by
  induction h with
  | function ht hlp params hrp body ih =>
      simp [ht, hlp, hrp, params.opens_eq_zero, ih, Session.openWeight]
  | unary hlevel ht right ih =>
      simp only [signs, List.mem_cons, List.not_mem_nil, or_false] at ht
      rcases ht with ht | ht <;> simp [ht, ih, Session.openWeight]
  | binary hlevel left ht right ihl ihr => simp [ihl, ihr, openWeight_of_mem_operators ht]
  | _ => simp_all [Session.openWeight]

/-- The kind of the last token of a list. -/
def lastKind (ts : List Token) : Token.Kind := leadKind ts.reverse

theorem lastKind_append_of_ne {ts us : List Token} (h : lastKind us ≠ .eof) :
    lastKind (ts ++ us) = lastKind us := by
  rw [lastKind, List.reverse_append, leadKind_append h, lastKind]

/-- The tokens an expression can end with. -/
def enders : List Token.Kind := [.ident, .int, .true, .false, .rparen, .rbrace]

/-- What is known of the last token of a phrase. -/
def Phrase.EndsWith : Phrase → Token.Kind → Prop
  | expr _ _, kind => kind ∈ enders
  | block _, kind => kind ∈ enders
  | stmt _, kind => kind ∈ enders
  | _, _ => True

theorem mem_enders_append {us : List Token} (h : lastKind us ∈ enders) (ts : List Token) :
    lastKind (ts ++ us) ∈ enders := by
  have hne : lastKind us ≠ .eof := by
    intro heof
    simp [heof, enders] at h
  rwa [lastKind_append_of_ne hne]

theorem Derives.endsWith {ph : Phrase} {ts : List Token} (h : Derives .strict ph ts) :
    ph.EndsWith (lastKind ts) := by
  induction h with
  | @cond level t lp rp c b cs bs ht hlp condition hrp consequence ihc ihb =>
      simpa [Phrase.EndsWith] using mem_enders_append ihb (t :: lp :: (cs ++ [rp]))
  | @condElse level t lp rp el c b b' cs bs bs' ht hlp condition hrp consequence hel alternative
      ihc ihb ihb' =>
      simpa [Phrase.EndsWith] using mem_enders_append ihb' (t :: lp :: (cs ++ rp :: (bs ++ [el])))
  | @function level t lp rp ids b ps bs ht hlp params hrp body ih =>
      simpa [Phrase.EndsWith] using mem_enders_append ih (t :: lp :: (ps ++ [rp]))
  | @unary level t r ts hlevel ht right ih => exact mem_enders_append ih [t]
  | @binary level m t l r ls rs hlevel left ht right ihl ihr =>
      simpa [Phrase.EndsWith] using mem_enders_append ihr (ls ++ [t])
  | @bind t name eq v ts ht hname heq value ih => exact mem_enders_append ih [t, name, eq]
  | @ret t v ts ht value ih => exact mem_enders_append ih [t]
  | exprStmt value ih => exact ih
  | _ => simp_all [Phrase.EndsWith, enders, lastKind]

/-- No token of `us` goes on with the last statement of `ts`: there is none, or a semicolon ends
it, or the first token of `us` is no semicolon, no `else`, no parenthesis and no operator. -/
def Separate (ts us : List Token) : Prop :=
  ts = [] ∨ lastKind ts = .semicolon ∨
    (leadKind us ≠ .semicolon ∧ leadKind us ≠ .else ∧ leadKind us ∉ joiners)

theorem Separate.of_append {ts us rest : List Token} (h : Separate (ts ++ us) rest) :
    Separate us rest := by
  rcases h with h | h | h
  · exact .inl (List.append_eq_nil_iff.mp h).2
  · rcases List.eq_nil_or_concat us with rfl | ⟨before, last, rfl⟩
    · exact .inl rfl
    · exact .inr (.inl (by simpa [lastKind] using h))
  · exact .inr (.inr h)

/-- What comes after the last statement of a list, if it has no semicolon. -/
theorem Derives.follows_of_separate {stmt : Stmt} {ts rest : List Token}
    (h : Derives .strict (.stmt stmt) ts) (hsep : Separate ts rest) :
    Follows stmt.Dangling .lowest (leadKind rest) ∧ AfterSemicolon rest rest := by
  have hend : lastKind ts ∈ enders := h.endsWith
  rcases hsep with rfl | hsemi | ⟨hsemi, helse, hjoin⟩
  · simp [lastKind, enders] at hend
  · simp [hsemi, enders] at hend
  · exact ⟨follows_lowest (fun _ => helse) hjoin, .inr ⟨rfl, hsemi⟩⟩

/-- The loop over statements gets past a list of statements to what comes after it. -/
theorem Derives.iterate_stmts {ss : List Stmt} {ts rest : List Token}
    (h : Derives .strict (.stmts ss) ts) (hsep : Separate ts rest) {stop : Token.Kind → Bool}
    (hgo : ∀ kind ∈ stmtStarters, stop kind = false) {bound : Nat} {P : List Stmt → State → Prop}
    (count : Nat) {done : List Stmt} {s : State} (hs : s.tokens = ts ++ rest)
    (hnext : ∀ s' count', s'.tokens = rest → s'.faults = s.faults →
      (iterate (statementRound (expression bound) stop) count' (ss.reverse ++ done) s').Satisfies P
        (fun _ => False) True) :
    (iterate (statementRound (expression bound) stop) count done s).Satisfies P (fun _ => False)
      True := by
  induction ss generalizing ts count done s with
  | nil =>
      cases h with
      | noStmts => exact hnext s count hs rfl
      | dropped hmode => cases hmode
  | cons stmt ss ih =>
      -- what is to be done after the first statement, of which `us` are left
      have hrest : ∀ {us stmt' s' count'}, Derives .strict (.stmts ss) us → Separate us rest →
          stmt'.moved id = stmt → s'.tokens.map (Token.moved id) = us ++ rest →
          s'.faults = s.faults →
          (iterate (statementRound (expression bound) stop) count' (stmt' :: done) s').Satisfies P
            (fun _ => False) True := by
        intro us stmt' s' count' more hsep' hstmt' hs' hfaults
        have hsame : stmt' = stmt := (Stmt.relabel_id stmt').symm.trans hstmt'
        subst hsame
        rw [Token.moved_id, List.map_id] at hs'
        refine ih more hsep' count' hs' fun s'' count'' hs'' hfaults' => ?_
        simpa using hnext s'' count'' hs'' (hfaults'.trans hfaults)
      have hs' : s.tokens.map (Token.moved id) = ts ++ rest := by
        rw [Token.moved_id, List.map_id, hs]
      cases h with
      | @closed semi _ _ ts us first hsemi more =>
          rw [List.append_cons] at hsep
          have hfollow : Follows stmt.Dangling .lowest (leadKind (semi :: (us ++ rest))) :=
            follows_semicolon hsemi
          refine iterate_statement first (first.complete id) hfollow (.inl ⟨semi, hsemi, rfl⟩) hgo
            count (by simpa using hs') fun stmt' s' count' => hrest more hsep.of_append
      | @unclosed _ _ ts us first more hnext' =>
          by_cases hne : us = []
          · subst hne
            rw [List.append_nil] at hsep hs'
            obtain ⟨hfollow, hafter⟩ := first.follows_of_separate hsep
            exact iterate_statement first (first.complete id) hfollow hafter hgo count hs'
              fun stmt' s' count' => hrest more (.inl rfl)
          · obtain ⟨hfollow, hafter⟩ := more.follows_of_unclosed hne hnext' rest
            exact iterate_statement first (first.complete id) hfollow hafter hgo count
              (by simpa using hs') fun stmt' s' count' => hrest more hsep.of_append
      | dropped hmode => cases hmode

theorem opens_replicate (k : Nat) (t : Token) :
    opens (List.replicate k t) = k * Session.openWeight t.kind := by
  induction k with
  | zero => simp
  | succ k ih =>
      rw [List.replicate_succ, opens_cons, ih, Int.natCast_succ, Int.add_mul, Int.one_mul,
        Int.add_comm]

/-- Tokens that are read without a fault are those of a derivation, but for the braces that are
missing at the end. -/
theorem exists_derives {input : Token.Stream} {tracing : Bool}
    (hend : ∀ t ∈ input.items, t.kind ≠ .eof) (hfaults : (parse input tracing).faults = [])
    {brace : Token} (hbrace : brace.kind = .rbrace) :
    ∃ k : Nat, opens input.items = k ∧
      Derives .strict (.stmts (parse input tracing).program.stmts)
        (input.items ++ List.replicate k brace) := by
  obtain ⟨k, hk⟩ := parse_derives_strict hbrace hend hfaults
  have hbalance := hk.opens_eq_zero
  rw [opens_append, opens_replicate, hbrace, Session.openWeight] at hbalance
  exact ⟨k, by omega, hk⟩

/-- Tokens that are read without a fault and leave no bracket open are those of a derivation. -/
theorem derives_of_opens {input : Token.Stream} {tracing : Bool}
    (hend : ∀ t ∈ input.items, t.kind ≠ .eof) (hfaults : (parse input tracing).faults = [])
    (hopens : opens input.items = 0) :
    Derives .strict (.stmts (parse input tracing).program.stmts) input.items := by
  have hbrace : Token.kind ⟨.rbrace, [], .start⟩ = .rbrace := rfl
  obtain ⟨k, hk, hderives⟩ := exists_derives hend hfaults hbrace
  obtain rfl : k = 0 := by omega
  simpa using hderives

theorem statements_of_program {bound : Nat} {s s' : State} {p : Program}
    (h : program bound s = .found p s') :
    statements (expression bound) bound (fun kind => kind = .eof) s = .found p.stmts s' := by
  change Rule.bind _ _ s = _ at h
  rw [run] at h
  split at h
  · next stmts s₁ hstmts =>
      cases h
      exact hstmts
  · cases h
  · cases h

theorem map_moved_id (ss : List Stmt) : ss.map (Stmt.moved id) = ss := by
  rw [← Stmt.relabelEach_id ss, ← Stmt.relabelEach_eq_map]
  exact Stmt.relabelEach_id _

/-- After tokens that have a derivation, others are read as by themselves. -/
theorem parse_append {first second joined : Token.Stream} {ss : List Stmt} {tracing : Bool}
    {move : Position → Position} (h : Derives .strict (.stmts ss) first.items)
    (hsep : Separate first.items second.items)
    (hitems : joined.items = first.items ++ second.items.map (Token.moved move)) :
    (parse joined tracing).program.stmts =
        ss ++ (parse second tracing).program.stmts.map (Stmt.moved move) ∧
      (parse joined tracing).faults = (parse second tracing).faults := by
  obtain ⟨q, t, hsecond, hparse⟩ := parse_eq second tracing
  obtain ⟨p, s, hjoined, hparse'⟩ := parse_eq joined tracing
  have hloop := statements_of_program hsecond
  have hread : (program (boundFor joined) (.ofStream tracing joined)).Satisfies
      (fun p s => p.stmts = ss ++ q.stmts.map (Stmt.moved move) ∧ s.faults = t.faults)
      (fun _ => False) True := by
    simp only [program, satisfies_silent, satisfies_bind, satisfies_pure]
    have hsep' : Separate first.items (second.items.map (Token.moved move)) := by
      unfold Separate at hsep ⊢
      rwa [leadKind_map]
    refine h.iterate_stmts hsep' (by decide) _ hitems fun s' count' hs' hfaults => ?_
    have halike : State.Alike move id (.ofStream tracing second) s' :=
      ⟨by rw [hs', Token.moved_id, List.map_id]; rfl, hfaults.symm⟩
    have hdone : StmtsAfter move id ss [] (ss.reverse ++ []).reverse := by
      simp [StmtsAfter, map_moved_id]
    have hparallel : Outcome.Beside move id (StmtsAfter move id ss)
        (statements (expression (boundFor second)) (boundFor second) (fun kind => kind = .eof)
          (.ofStream tracing second))
        (iterate (statementRound (expression (boundFor joined)) fun kind => kind = .eof) count'
          (ss.reverse ++ []) s') :=
      parallel_statementLoop (parallelExprs_expression _ _) rfl ss hdone _ s' halike trivial
    rw [hloop] at hparallel
    generalize iterate _ count' _ s' = o at hparallel ⊢
    cases hparallel with
    | found hstmts hst =>
        unfold StmtsAfter at hstmts
        rw [map_moved_id] at hstmts
        exact ⟨hstmts, hst.faults.symm⟩
    | cutRight => trivial
  rw [hjoined] at hread
  rw [hparse, hparse']
  exact ⟨hread.1, congrArg List.reverse hread.2⟩

/-- Two sources with a line feed between them are read as the statements of both, and with the
faults of the second one. -/
theorem parseSource_append {a b : Bytes} {tracing : Bool}
    (hfaults : (parseSource a tracing).faults = []) (hdepth : Session.openDepth a = 0)
    (hsep : Separate (Token.Stream.ofSource a).items (Token.Stream.ofSource b).items) :
    (parseSource (a ++ 0x0a :: b) tracing).program.stmts =
        (parseSource a tracing).program.stmts ++ (parseSource b tracing).program.stmts.map
          (Stmt.moved (Position.down (a.count 0x0a + 1))) ∧
      (parseSource (a ++ 0x0a :: b) tracing).faults = (parseSource b tracing).faults := by
  have hderives := derives_of_opens (Token.kind_ne_eof_ofSource a) hfaults
    ((openDepth_eq a).symm.trans hdepth)
  exact parse_append hderives hsep (Token.items_append_lineFeed a b)

end Monkey.Grammar
